/-
Module: RobotScript.Scope
Purpose: The names that conditions read. Scripts never assign: the host writes between steps.
  Bindings are kept in the order of their names, so that two scopes with the same bindings are
  the same scope.
Main exports: codesBefore, Scope, Scope.lookup?, Scope.get, Scope.set, Scope.erase,
  Scope.isTruthy, Scope.lookup?_set, Scope.lookup?_erase, Scope.eq_of_lookup?_eq
-/
import RobotScript.Value

namespace RobotScript

/-! ### The order of names -/

/-- Names are ordered by the codes of their characters, from the first one on; a name comes before
every longer one that begins with it. -/
def codesBefore : List Char → List Char → Bool
  | _, [] => false
  | [], _ :: _ => true
  | c :: cs, d :: ds =>
      if c.toNat < d.toNat then true
      else if d.toNat < c.toNat then false
      else codesBefore cs ds

/-- Whether the first name stands before the second one. -/
def nameBefore (left right : String) : Bool :=
  codesBefore left.toList right.toList

theorem codesBefore_cons_iff (c d : Char) (cs ds : List Char) :
    codesBefore (c :: cs) (d :: ds) = true ↔
      c.toNat < d.toNat ∨ (c.toNat = d.toNat ∧ codesBefore cs ds = true) := by
  by_cases less : c.toNat < d.toNat
  · simp [codesBefore, less]
  · by_cases greater : d.toNat < c.toNat
    · simp [codesBefore, less, greater]; omega
    · simp [codesBefore, less, greater]; omega

theorem codesBefore_irrefl (cs : List Char) : codesBefore cs cs = false := by
  induction cs with
  | nil => rfl
  | cons c rest inductionHypothesis => simp [codesBefore, inductionHypothesis]

theorem codesBefore_trans {xs ys zs : List Char} (first : codesBefore xs ys = true)
    (second : codesBefore ys zs = true) : codesBefore xs zs = true := by
  induction xs generalizing ys zs with
  | nil => cases ys <;> cases zs <;> simp_all [codesBefore]
  | cons x xs inductionHypothesis =>
      match ys, zs, first, second with
      | y :: ys, z :: zs, first, second =>
          rw [codesBefore_cons_iff] at first second ⊢
          rcases first with less | ⟨same, first⟩
          · left
            rcases second with less' | ⟨same', _⟩ <;> omega
          · rcases second with less' | ⟨same', second⟩
            · left; omega
            · exact Or.inr ⟨same.trans same', inductionHypothesis first second⟩

/-- Of two different names one stands before the other. -/
theorem codesBefore_total {xs ys : List Char} (notBefore : codesBefore xs ys = false)
    (notAfter : codesBefore ys xs = false) : xs = ys := by
  induction xs generalizing ys with
  | nil => cases ys <;> simp_all [codesBefore]
  | cons x xs inductionHypothesis =>
      cases ys with
      | nil => simp [codesBefore] at notAfter
      | cons y ys =>
          rw [← Bool.not_eq_true, codesBefore_cons_iff] at notBefore notAfter
          have same : x.toNat = y.toNat := by omega
          have tails : xs = ys := by
            apply inductionHypothesis
            · cases shape : codesBefore xs ys <;> simp_all
            · cases shape : codesBefore ys xs <;> simp_all
          rw [Char.toNat_inj.mp same, tails]

theorem nameBefore_irrefl (name : String) : nameBefore name name = false :=
  codesBefore_irrefl _

theorem nameBefore_trans {left middle right : String} (first : nameBefore left middle = true)
    (second : nameBefore middle right = true) : nameBefore left right = true :=
  codesBefore_trans first second

theorem nameBefore_total {left right : String} (notBefore : nameBefore left right = false)
    (notAfter : nameBefore right left = false) : left = right :=
  String.toList_inj.mp (codesBefore_total notBefore notAfter)

/-! ### Ordered bindings -/

/-- A name and its value. -/
abbrev Binding := String × Value

/-- Each name stands before all later ones. -/
def OrderedBindings (bindings : List Binding) : Prop :=
  bindings.Pairwise fun left right => nameBefore left.1 right.1 = true

/-- The value that a name is bound to. -/
def findBinding? (name : String) : List Binding → Option Value
  | [] => none
  | (other, value) :: rest => if name = other then some value else findBinding? name rest

/-- Puts a binding in its place, over the old one of that name if there is one. -/
def insertBinding (name : String) (value : Value) : List Binding → List Binding
  | [] => [(name, value)]
  | (other, old) :: rest =>
      if nameBefore name other then (name, value) :: (other, old) :: rest
      else if nameBefore other name then (other, old) :: insertBinding name value rest
      else (name, value) :: rest

/-- Takes the binding of a name away. -/
def eraseBinding (name : String) (bindings : List Binding) : List Binding :=
  bindings.filter fun binding => binding.1 != name

theorem mem_insertBinding {name : String} {value : Value} {bindings : List Binding}
    {binding : Binding} (member : binding ∈ insertBinding name value bindings) :
    binding = (name, value) ∨ binding ∈ bindings := by
  induction bindings with
  | nil => simpa [insertBinding] using member
  | cons head rest inductionHypothesis =>
      unfold insertBinding at member
      split at member
      · simpa using member
      · split at member
        · rcases List.mem_cons.mp member with rfl | inRest
          · simp
          · rcases inductionHypothesis inRest with same | inRest <;> simp_all
        · rcases List.mem_cons.mp member with same | inRest <;> simp_all

theorem OrderedBindings.insertBinding {bindings : List Binding} (ordered : OrderedBindings bindings)
    (name : String) (value : Value) : OrderedBindings (insertBinding name value bindings) := by
  induction bindings with
  | nil => simp [RobotScript.insertBinding, OrderedBindings]
  | cons head rest inductionHypothesis =>
      obtain ⟨headBefore, restOrdered⟩ := List.pairwise_cons.mp ordered
      unfold RobotScript.insertBinding
      split
      · rename_i before
        refine List.pairwise_cons.mpr ⟨fun later member => ?_, ordered⟩
        rcases List.mem_cons.mp member with rfl | inRest
        · exact before
        · exact nameBefore_trans before (headBefore later inRest)
      · rename_i notBefore
        split
        · rename_i after
          refine List.pairwise_cons.mpr ⟨fun later member => ?_, inductionHypothesis restOrdered⟩
          rcases mem_insertBinding member with rfl | inRest
          · exact after
          · exact headBefore later inRest
        · rename_i notAfter
          have same : name = head.1 :=
            nameBefore_total (by simpa using notBefore) (by simpa using notAfter)
          refine List.pairwise_cons.mpr ⟨fun later member => ?_, restOrdered⟩
          rw [same]
          exact headBefore later member

theorem OrderedBindings.eraseBinding {bindings : List Binding} (ordered : OrderedBindings bindings)
    (name : String) : OrderedBindings (eraseBinding name bindings) :=
  List.Pairwise.filter _ ordered

/-- A name that stands before all bound ones is not bound. -/
theorem findBinding?_eq_none {name : String} {bindings : List Binding}
    (before : ∀ binding ∈ bindings, nameBefore name binding.1 = true) :
    findBinding? name bindings = none := by
  induction bindings with
  | nil => rfl
  | cons head rest inductionHypothesis =>
      have different : name ≠ head.1 := by
        intro same
        have headBefore := before head List.mem_cons_self
        rw [← same, nameBefore_irrefl] at headBefore
        cases headBefore
      unfold findBinding?
      rw [if_neg different]
      exact inductionHypothesis fun binding member =>
        before binding (List.mem_cons_of_mem _ member)

/-- The first name of one list does not stand before all names of another one with the same
values. -/
theorem not_before_of_findBinding?_eq {name : String} {value : Value} {rest others : List Binding}
    (same : ∀ asked, findBinding? asked ((name, value) :: rest) = findBinding? asked others)
    (before : ∀ binding ∈ others, nameBefore name binding.1 = true) : False := by
  have found := same name
  rw [findBinding?_eq_none before] at found
  simp [findBinding?] at found

/-- Ordered bindings that give every name the same value are the same bindings. -/
theorem OrderedBindings.eq_of_findBinding?_eq {left right : List Binding}
    (leftOrdered : OrderedBindings left) (rightOrdered : OrderedBindings right)
    (same : ∀ asked, findBinding? asked left = findBinding? asked right) : left = right := by
  induction left generalizing right with
  | nil =>
      match right with
      | [] => rfl
      | (name, value) :: rest =>
          exact (not_before_of_findBinding?_eq (fun asked => (same asked).symm)
            fun _ member => nomatch member).elim
  | cons head rest inductionHypothesis =>
      obtain ⟨name, value⟩ := head
      match right with
      | [] => exact (not_before_of_findBinding?_eq same fun _ member => nomatch member).elim
      | (name', value') :: rest' =>
          obtain ⟨nameFirst, restOrdered⟩ := List.pairwise_cons.mp leftOrdered
          obtain ⟨nameFirst', restOrdered'⟩ := List.pairwise_cons.mp rightOrdered
          -- Neither first name stands before the other one.
          have notBefore : nameBefore name name' = false := by
            cases before : nameBefore name name' with
            | false => rfl
            | true =>
                refine (not_before_of_findBinding?_eq same fun binding member => ?_).elim
                rcases List.mem_cons.mp member with rfl | inRest
                · exact before
                · exact nameBefore_trans before (nameFirst' binding inRest)
          have notAfter : nameBefore name' name = false := by
            cases before : nameBefore name' name with
            | false => rfl
            | true =>
                refine (not_before_of_findBinding?_eq (fun asked => (same asked).symm)
                  fun binding member => ?_).elim
                rcases List.mem_cons.mp member with rfl | inRest
                · exact before
                · exact nameBefore_trans before (nameFirst binding inRest)
          obtain rfl : name = name' := nameBefore_total notBefore notAfter
          have sameValue : value = value' := by
            have found := same name
            simpa [findBinding?] using found
          have sameRest : rest = rest' := by
            refine inductionHypothesis restOrdered restOrdered' fun asked => ?_
            by_cases first : asked = name
            · rw [first, findBinding?_eq_none nameFirst, findBinding?_eq_none nameFirst']
            · have found := same asked
              simpa [findBinding?, first] using found
          rw [sameValue, sameRest]

/-! ### Scopes -/

/-- The bindings of a session, in the order of their names. -/
structure Scope where
  bindings : List Binding
  ordered : OrderedBindings bindings
  deriving Repr, DecidableEq

namespace Scope

/-- No name is set. -/
def empty : Scope := ⟨[], List.Pairwise.nil⟩

instance : Inhabited Scope := ⟨empty⟩

/-- The value of a name, if it is set. -/
def lookup? (scope : Scope) (name : String) : Option Value :=
  findBinding? name scope.bindings

/-- The value of a name; an unset one reads as false. -/
def get (scope : Scope) (name : String) : Value :=
  (scope.lookup? name).getD Value.unset

/-- Sets a name, whether it was set before or not. -/
def set (scope : Scope) (name : String) (value : Value) : Scope :=
  ⟨insertBinding name value scope.bindings, scope.ordered.insertBinding name value⟩

/-- Makes a name unset. -/
def erase (scope : Scope) (name : String) : Scope :=
  ⟨eraseBinding name scope.bindings, scope.ordered.eraseBinding name⟩

/-- Whether a name holds as a condition. -/
def isTruthy (scope : Scope) (name : String) : Bool :=
  (scope.get name).isTruthy

/-- The scope with these bindings, the last one of a name counting. -/
def ofList (bindings : List Binding) : Scope :=
  bindings.foldl (fun scope binding => scope.set binding.1 binding.2) empty

/-- How many names are set. -/
def size (scope : Scope) : Nat :=
  scope.bindings.length

/-- Whether no name is set. -/
def isEmpty (scope : Scope) : Bool :=
  scope.bindings.isEmpty

@[simp] theorem lookup?_empty (name : String) : empty.lookup? name = none := rfl

theorem lookup?_set (scope : Scope) (name other : String) (value : Value) :
    (scope.set name value).lookup? other =
      if other = name then some value else scope.lookup? other := by
  obtain ⟨bindings, ordered⟩ := scope
  simp only [set, lookup?]
  clear ordered
  induction bindings with
  | nil => simp [insertBinding, findBinding?]
  | cons head rest inductionHypothesis =>
      obtain ⟨first, old⟩ := head
      unfold insertBinding
      split
      · simp [findBinding?]
      · rename_i notBefore
        split
        · rename_i after
          have different : first ≠ name := by
            rintro rfl
            simp [nameBefore_irrefl] at after
          by_cases asked : other = first
          · simp [findBinding?, asked, different]
          · simp [findBinding?, asked, inductionHypothesis]
        · rename_i notAfter
          obtain rfl : name = first :=
            nameBefore_total (by simpa using notBefore) (by simpa using notAfter)
          by_cases asked : other = name <;> simp [findBinding?, asked]

theorem lookup?_erase (scope : Scope) (name other : String) :
    (scope.erase name).lookup? other = if other = name then none else scope.lookup? other := by
  obtain ⟨bindings, ordered⟩ := scope
  simp only [erase, lookup?, eraseBinding]
  clear ordered
  induction bindings with
  | nil => simp [findBinding?]
  | cons head rest inductionHypothesis =>
      obtain ⟨first, old⟩ := head
      by_cases erased : first = name
      · by_cases asked : other = name <;> simp_all [findBinding?]
      · by_cases asked : other = first <;> simp_all [findBinding?]

/-- Two scopes that give every name the same value, unset ones included, are the same scope. -/
theorem eq_of_lookup?_eq {left right : Scope}
    (same : ∀ name, left.lookup? name = right.lookup? name) : left = right := by
  obtain ⟨leftBindings, leftOrdered⟩ := left
  obtain ⟨rightBindings, rightOrdered⟩ := right
  obtain rfl : leftBindings = rightBindings :=
    leftOrdered.eq_of_findBinding?_eq rightOrdered same
  rfl

end Scope

end RobotScript
