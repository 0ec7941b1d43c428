import LedgerReport.Expression.Reader
/-!
The value of an expression.

An operand that is not available makes the value unavailable, and so does a zero divisor. Both
operands are always evaluated. A reference without a value is resolved from its definition, under
the references that are being resolved already; its value is then kept, also when a later step
fails. A definition is used up while it is resolved, so resolution ends.
-/

set_option autoImplicit false

namespace LedgerReport

structure Bindings where
  names : List (String × Amount)
  orders : List (Int × Amount)

/-- Pairs with the value of a key set: in place if the key is there, at the end if not. -/
def setPair {α β : Type} [DecidableEq α] (key : α) (value : β) : List (α × β) → List (α × β)
  | [] => [(key, value)]
  | (k, v) :: r => if k = key then (k, value) :: r else (k, v) :: setPair key value r

def getPair? {α β : Type} [DecidableEq α] (key : α) (pairs : List (α × β)) : Option β :=
  (pairs.find? fun p => p.1 = key).map (·.2)

theorem getPair?_setPair_self {α β : Type} [DecidableEq α] (key : α) (value : β)
    (pairs : List (α × β)) : getPair? key (setPair key value pairs) = some value := by
  induction pairs with
  | nil => simp [setPair, getPair?]
  | cons p r ih =>
    by_cases h : p.1 = key
    · simp [setPair, getPair?, h]
    · simpa [setPair, getPair?, h] using ih

theorem getPair?_setPair_of_ne {α β : Type} [DecidableEq α] {key other : α} (value : β)
    (pairs : List (α × β)) (h : other ≠ key) :
    getPair? other (setPair key value pairs) = getPair? other pairs := by
  induction pairs with
  | nil => simp [setPair, getPair?, Ne.symm h]
  | cons p r ih =>
    by_cases hp : p.1 = key
    · simp [setPair, getPair?, hp, Ne.symm h]
    · by_cases ho : p.1 = other
      · subst ho
        simp [setPair, getPair?, hp]
      · simpa [setPair, getPair?, hp, ho] using ih

theorem exists_getPair? {α β : Type} [DecidableEq α] {key : α} {value : β} {pairs : List (α × β)}
    (h : (key, value) ∈ pairs) : ∃ b, getPair? key pairs = some b ∧ (key, b) ∈ pairs := by
  unfold getPair?
  cases hf : pairs.find? fun p => p.1 = key with
  | none =>
    have hn := List.find?_eq_none.1 hf (key, value) h
    simp at hn
  | some p =>
    have hp : p.1 = key := by simpa using List.find?_some hf
    subst hp
    exact ⟨p.2, rfl, List.mem_of_find?_eq_some hf⟩

theorem getPair?_map {α β ι : Type} [DecidableEq α] (key : ι → α) (value : ι → β) {xs : List ι}
    {x : ι} (hx : x ∈ xs) (hs : ∀ y ∈ xs, key y = key x → value y = value x) :
    getPair? (key x) (xs.map fun y => (key y, value y)) = some (value x) := by
  have hmem : (key x, value x) ∈ xs.map fun y => (key y, value y) := List.mem_map.2 ⟨x, hx, rfl⟩
  obtain ⟨b, hb, hmem⟩ := exists_getPair? hmem
  obtain ⟨y, hy, he⟩ := List.mem_map.1 hmem
  obtain ⟨hk, rfl⟩ := Prod.mk.inj he
  rw [hb, hs y hy hk]

theorem getPair?_filter {α β : Type} [DecidableEq α] (p : α → Bool) (key : α)
    (pairs : List (α × β)) :
    getPair? key (pairs.filter fun e => p e.1) = if p key then getPair? key pairs else none := by
  induction pairs with
  | nil => simp [getPair?]
  | cons e r ih =>
    unfold getPair? at ih ⊢
    by_cases he : e.1 = key
    · subst he
      cases hp : p e.1 with
      | true => simp [hp]
      | false => simpa [hp] using ih
    · cases hp : p e.1 with
      | true => simpa [hp, he] using ih
      | false => simpa [hp, he] using ih

theorem setPair_eq_append {α β : Type} [DecidableEq α] {key : α} (value : β)
    {pairs : List (α × β)} (h : ∀ p ∈ pairs, p.1 ≠ key) :
    setPair key value pairs = pairs ++ [(key, value)] := by
  induction pairs with
  | nil => rfl
  | cons p r ih =>
    have hp : p.1 ≠ key := h p (by simp)
    rw [setPair, if_neg hp, ih fun q hq => h q (by simp [hq]), List.cons_append]

theorem mem_of_mem_setPair {α β : Type} [DecidableEq α] {key : α} {value : β}
    {pairs : List (α × β)} {p : α × β} (h : p ∈ setPair key value pairs) :
    p ∈ pairs ∨ p = (key, value) := by
  induction pairs with
  | nil => exact Or.inr (List.mem_singleton.1 h)
  | cons q r ih =>
    unfold setPair at h
    split at h
    · rename_i hq
      rcases List.mem_cons.1 h with rfl | h
      · exact Or.inr (by rw [hq])
      · exact Or.inl (List.mem_cons_of_mem _ h)
    · rcases List.mem_cons.1 h with rfl | h
      · exact Or.inl (List.mem_cons_self)
      · exact (ih h).imp_left (List.mem_cons_of_mem _)

namespace Bindings

def empty : Bindings := ⟨[], []⟩

def get? (b : Bindings) : Reference → Option Amount
  | .name v => getPair? v b.names
  | .order n => getPair? n b.orders

def set (b : Bindings) (ref : Reference) (value : Amount) : Bindings :=
  match ref with
  | .name v => { b with names := setPair v value b.names }
  | .order n => { b with orders := setPair n value b.orders }

theorem get?_set_self (b : Bindings) (ref : Reference) (value : Amount) :
    (b.set ref value).get? ref = some value := by
  cases ref <;> simp [set, get?, getPair?_setPair_self]

theorem get?_set_of_ne (b : Bindings) {ref other : Reference} (value : Amount)
    (h : other ≠ ref) : (b.set ref value).get? other = b.get? other := by
  cases ref <;> cases other <;> simp [set, get?] at h ⊢ <;>
    exact getPair?_setPair_of_ne value _ h

end Bindings

inductive Definition where
  | value (a : Amount)
  | expression (text : String)
  | refused (e : Error)

abbrev Definitions := List (Reference × Definition)

namespace Definitions

def without (ds : Definitions) (ref : Reference) : Definitions :=
  ds.filter fun d => d.1 ≠ ref

theorem length_without_lt {ds : Definitions} {ref : Reference} {d : Definition}
    (h : getPair? ref ds = some d) : (ds.without ref).length < ds.length := by
  unfold getPair? at h
  obtain ⟨p, hp, -⟩ := Option.map_eq_some_iff.1 h
  refine List.length_filter_lt_length_iff_exists.2 ⟨p, List.mem_of_find?_eq_some hp, ?_⟩
  simpa using List.find?_some hp

end Definitions

structure Site where
  expression : Option String
  position : Option Nat

def Reference.undefinedError (ref : Reference) (site : Site) : Error :=
  .undefinedReference ref.text site.expression site.position

/-- A step that may change a state and may fail; what was changed before a failure stays. -/
abbrev Attempt (σ α : Type) := ExceptT Error (StateM σ) α

abbrev Resolution (α : Type) := Attempt Bindings α

def Number.divide? (a b : Number) : Except Overflow Amount :=
  if b.isZero then .ok none else (a.div b).map some

def Operator.apply : Operator → Number → Number → Except Overflow Amount
  | .add, a, b => (a.add b).map some
  | .subtract, a, b => (a.sub b).map some
  | .multiply, a, b => (a.mul b).map some
  | .divide, a, b => a.divide? b

def Sign.apply : Sign → Number → Number
  | .plus, a => a
  | .minus, a => a.neg

def Operator.combine (operator : Operator) : Amount → Amount → Except Error Amount
  | some a, some b => (operator.apply a b).mapError .overflow
  | _, _ => .ok none

/-- The value of an expression, given how a reference at a position is looked up. -/
def Node.value {σ : Type} (lookup : Reference → Nat → Attempt σ Amount) : Node → Attempt σ Amount
  | .literal x => return some (.real x)
  | .variableAt v position => lookup (.name v) position
  | .orderAt n position => lookup (.order n) position
  | .signed sign operand => do
    let a ← operand.value lookup
    return a.map sign.apply
  | .binary operator left right => do
    let a ← left.value lookup
    let b ← right.value lookup
    liftExcept (operator.combine a b)
where
  liftExcept (r : Except Error Amount) : Attempt σ Amount :=
    match r with
    | .ok a => pure a
    | .error e => throw e

def evaluateWith {σ : Type} (lookup : Site → Reference → Attempt σ Amount) (text : String) :
    Attempt σ Amount :=
  match Node.read text with
  | .ok node => node.value fun ref position => lookup ⟨some text, some position⟩ ref
  | .error e => throw e

/-- The value that a definition gives, given how a reference is looked up. -/
def Definition.resolve {σ : Type} (lookup : Site → Reference → Attempt σ Amount) :
    Definition → Attempt σ Amount
  | .value a => pure a
  | .refused e => throw e
  | .expression text => evaluateWith lookup text

/-- The value of a reference under the references being resolved. Without definitions only values
that are set count. -/
def lookup (definitions : Option Definitions) (chain : Chain) (site : Site) (ref : Reference) :
    Resolution Amount := do
  match (← get).get? ref with
  | some a => return a
  | none =>
    match definitions with
    | none => throw (ref.undefinedError site)
    | some ds =>
      match chain.enter ref with
      | .error e => throw e
      | .ok chain =>
        match _h : getPair? ref ds with
        | none => throw (ref.undefinedError site)
        | some d =>
          let a ← d.resolve fun site ref' => lookup (some (ds.without ref)) chain site ref'
          modify (·.set ref a)
          return a
termination_by (definitions.getD []).length
decreasing_by exact Definitions.length_without_lt _h

def evaluate (definitions : Option Definitions) (chain : Chain) (text : String) :
    Resolution Amount :=
  evaluateWith (fun site ref => lookup definitions chain site ref) text

/-- The value of an expression that defines a reference, which it must not need itself. -/
def evaluateAs (definitions : Option Definitions) (chain : Chain) (ref : Reference)
    (text : String) : Resolution Amount :=
  match chain.enter ref with
  | .error e => throw e
  | .ok chain => evaluate definitions chain text

end LedgerReport
