import Mathlib
import LedgerReport.Proofs.Expression.Context
import LedgerReport.Proofs.Expression.Reading
import LedgerReport.Proofs.Expression.Position
/-!
Evaluation without definitions: which references it asks for, and when its value is not available.

Every reference is looked up, from left to right, whatever the values of the others are. So an
expression fails exactly if one of its references has no value, and tells the first of them. When
all have values the result is their arithmetic, unless one of them is not available or a quotient
has a zero below its bar.
-/

set_option autoImplicit false

namespace LedgerReport
open Amount

/-- An operation on floating-point values, where also a quotient by zero is taken. -/
def Operator.compute : Operator → Float → Float → Float
  | .add, x, y => x + y
  | .subtract, x, y => x - y
  | .multiply, x, y => x * y
  | .divide, x, y => x / y

theorem Operator.onReals_eq_none_iff {op : Operator} {x y : Float} :
    op.onReals x y = none ↔ op = .divide ∧ (y == 0.0) = true := by
  cases op <;> simp [onReals]

theorem Operator.onReals_eq_some {op : Operator} {x y z : Float} (h : op.onReals x y = some z) :
    z = op.compute x y := by
  cases op with
  | divide =>
    simp only [onReals] at h
    split at h
    · cases h
    · exact (Option.some.inj h).symm
  | _ => exact (Option.some.inj h).symm

namespace Node

/-- The places where an expression names a reference, from left to right, with their positions. -/
def sites : Node → List (Reference × Nat)
  | literal _ => []
  | variableAt name position => [(.name name, position)]
  | orderAt n position => [(.order n, position)]
  | signed _ operand => operand.sites
  | binary _ left right => left.sites ++ right.sites

def divisors : Node → List Node
  | literal _ | variableAt _ _ | orderAt _ _ => []
  | signed _ operand => operand.divisors
  | binary op left right =>
    left.divisors ++ right.divisors ++ if op = .divide then [right] else []

/-- The arithmetic value of an expression whose references all have values. -/
def arithmetic (σ : Reference → Float) : Node → Float
  | literal x => x
  | variableAt v _ => σ (.name v)
  | orderAt n _ => σ (.order n)
  | signed sign operand => sign.onReal (operand.arithmetic σ)
  | binary op left right => op.compute (left.arithmetic σ) (right.arithmetic σ)

theorem occurrences_of_mem_divisors {node d : Node} (h : d ∈ node.divisors) :
    ∀ ref ∈ d.occurrences, ref ∈ node.occurrences := by
  induction node with
  | literal x => cases h
  | variableAt v position => cases h
  | orderAt n position => cases h
  | signed sign operand ih => exact ih h
  | binary op left right hl hr =>
    intro ref hm
    rw [divisors, List.mem_append, List.mem_append] at h
    rcases h with (h | h) | h
    · exact List.mem_append_left _ (hl h ref hm)
    · exact List.mem_append_right _ (hr h ref hm)
    · split at h
      · rw [List.mem_singleton.1 h] at hm
        exact List.mem_append_right _ hm
      · cases h

theorem map_fst_sites (node : Node) : node.sites.map Prod.fst = node.occurrences := by
  induction node with
  | literal x => rfl
  | variableAt v position => rfl
  | orderAt n position => rfl
  | signed sign operand ih => exact ih
  | binary op left right hl hr => rw [sites, List.map_append, hl, hr, occurrences]

theorem mem_occurrences_iff {node : Node} {ref : Reference} :
    ref ∈ node.occurrences ↔ ∃ s ∈ node.sites, s.1 = ref := by
  rw [← map_fst_sites, List.mem_map]

theorem meaning_eq_none_iff {σ : Reference → Option Float} (node : Node) :
    node.meaning σ = none ↔ (∃ ref ∈ node.occurrences, σ ref = none) ∨
      ∃ d ∈ node.divisors, ∃ y, d.meaning σ = some y ∧ (y == 0.0) = true := by
  induction node with
  | literal x => simp [meaning, occurrences, divisors]
  | variableAt v position => simp [meaning, occurrences, divisors]
  | orderAt n position => simp [meaning, occurrences, divisors]
  | signed sign operand ih =>
    rw [meaning, Option.map_eq_none_iff, ih]
    rfl
  | binary op left right hl hr =>
    have hbinary : (binary op left right).meaning σ = none ↔
        left.meaning σ = none ∨ right.meaning σ = none ∨
          op = .divide ∧ ∃ y, right.meaning σ = some y ∧ (y == 0.0) = true := by
      rw [meaning]
      cases left.meaning σ with
      | none => simp
      | some x =>
        cases right.meaning σ with
        | none => simp
        | some y => simp [Operator.onReals_eq_none_iff]
    rw [hbinary, hl, hr]
    simp only [occurrences, divisors, List.mem_append]
    by_cases hop : op = .divide
    · simp only [hop, if_true, List.mem_singleton]
      grind
    · simp only [hop, if_false, List.not_mem_nil]
      grind

theorem meaning_eq_some {σ : Reference → Float} {node : Node} {x : Float}
    (h : node.meaning (fun ref => some (σ ref)) = some x) : x = node.arithmetic σ := by
  induction node generalizing x with
  | literal y => exact (Option.some.inj h).symm
  | variableAt v position => exact (Option.some.inj h).symm
  | orderAt n position => exact (Option.some.inj h).symm
  | signed sign operand ih =>
    obtain ⟨y, hy, rfl⟩ := Option.map_eq_some_iff.1 h
    rw [ih hy, arithmetic]
  | binary op left right hl hr =>
    obtain ⟨y, hy, h⟩ := Option.bind_eq_some_iff.1 h
    obtain ⟨z, hz, h⟩ := Option.bind_eq_some_iff.1 h
    rw [Operator.onReals_eq_some h, hl hy, hr hz, arithmetic]

theorem outcome_first {find : Reference → Nat → Except Error Amount} {σ : Reference → Option Float}
    {node : Node} {pre post : List (Reference × Nat)} {s : Reference × Nat} {e : Error}
    (hsites : node.sites = pre ++ s :: post)
    (hpre : ∀ other ∈ pre, ∀ position, find other.1 position = .ok (ofReal (σ other.1)))
    (he : find s.1 s.2 = .error e) : node.outcome find = .error e := by
  induction node generalizing pre post with
  | literal x => simp [sites] at hsites
  | variableAt v position =>
    obtain ⟨rfl, rfl, rfl⟩ : pre = [] ∧ s = (.name v, position) ∧ post = [] := by
      simpa [sites, List.singleton_eq_append_iff] using hsites
    exact he
  | orderAt n position =>
    obtain ⟨rfl, rfl, rfl⟩ : pre = [] ∧ s = (.order n, position) ∧ post = [] := by
      simpa [sites, List.singleton_eq_append_iff] using hsites
    exact he
  | signed sign operand ih =>
    rw [outcome, ih hsites hpre]
    rfl
  | binary op left right hl hr =>
    -- either all references on the left are found, or the first that is not is among them
    have hcases : (∃ between, pre = left.sites ++ between ∧ right.sites = between ++ s :: post) ∨
        ∃ behind, left.sites = pre ++ s :: behind := by
      rw [sites] at hsites
      rcases List.append_eq_append_iff.1 hsites with ⟨between, hp, hright⟩ | ⟨between, hp, hrest⟩
      · exact .inl ⟨between, hp, hright⟩
      · cases between with
        | nil => exact .inl ⟨[], by simpa using hp.symm, by simpa using hrest.symm⟩
        | cons other behind =>
          obtain ⟨rfl, -⟩ := List.cons.inj hrest
          exact .inr ⟨behind, hp⟩
    rcases hcases with ⟨between, rfl, hright⟩ | ⟨behind, hleft⟩
    · have hfound : left.outcome find = .ok (ofReal (left.meaning σ)) := by
        refine left.outcome_eq_meaning fun ref hm position => ?_
        obtain ⟨other, ho, rfl⟩ := mem_occurrences_iff.1 hm
        exact hpre other (List.mem_append_left _ ho) position
      rw [outcome, hfound, hr hright fun other ho => hpre other (List.mem_append_right _ ho)]
      rfl
    · rw [outcome, hl hleft hpre]
      rfl

def Refers (t : Token) : Bool := t.kind = .name || t.kind = .order

/-- Whether a token is where an expression names a reference. -/
def Names (t : Token) (s : Reference × Nat) : Prop :=
  s.2 = t.position ∧ (t.kind = .name ∧ s.1 = .name t.text ∨ t.kind = .order ∧
    ∃ n : Int, Numeral.readWhole? (String.ofList (t.chars.drop 1)) = some n ∧ s.1 = .order n)

end Node

open Grammar Node in
theorem Grammar.Derives.names_sites {part : Stratum} {ts : List Token} {node : Node}
    (h : Derives part ts node) (hts : ∀ t ∈ ts, t.IsLegible ∧ t.overlong? = none) :
    List.Forall₂ Names (ts.filter Refers) node.sites := by
  induction h with
  | number hk hx => simp [Refers, hk, sites]
  | @name t hk =>
    rw [List.filter_cons_of_pos (by simp [Refers, hk])]
    exact .cons ⟨rfl, .inl ⟨hk, rfl⟩⟩ .nil
  | @order t n hk hn =>
    rw [List.filter_cons_of_pos (by simp [Refers, hk])]
    obtain ⟨hlegible, hshort⟩ := hts t List.mem_cons_self
    have hvalue := (Numeral.digitsValue?_eq_some_iff.1 hn).2
    have hread := hlegible.readWhole?_digits hk hshort
    rw [hvalue] at hread
    exact .cons ⟨rfl, .inr ⟨hk, n, hread, rfl⟩⟩ .nil
  | enclosed ht hu _ ih =>
    rw [List.filter_cons_of_neg (by simp [Refers, ht]), List.filter_append,
      List.filter_cons_of_neg (by simp [Refers, hu]), List.filter_nil, List.append_nil]
    exact ih fun v hv => hts v (by simp [hv])
  | ofPrimary _ ih | ofOperand _ ih | ofProduct _ ih => exact ih hts
  | signed ht _ ih =>
    rw [List.filter_cons_of_neg (by simp [Refers, ht.1])]
    exact ih fun v hv => hts v (List.mem_cons_of_mem _ hv)
  | multiplied _ _ ht _ ihl ihr | added _ _ ht _ ihl ihr =>
    rw [List.filter_append, List.filter_cons_of_neg (by simp [Refers, ht.1])]
    exact List.rel_append (ihl fun v hv => hts v (by simp [hv]))
      (ihr fun v hv => hts v (by simp [hv]))

/-- Whether characters start with what names a reference. -/
def Reference.Starts (cs : List Char) : Reference → Prop
  | .name v => v.toList <+: cs
  | .order n => ∃ ds, '@' :: ds <+: cs ∧ Numeral.readWhole? (String.ofList ds) = some n

namespace Node

theorem names_sites_of_read {text : String} {node : Node} (h : read text = .ok node) :
    ∃ tokens, Token.read text = .ok tokens ∧
      List.Forall₂ Names (tokens.filter Refers) node.sites := by
  obtain ⟨tokens, ht, hd, hshort⟩ := read_eq_ok.1 h
  exact ⟨tokens, ht, hd.names_sites fun t hm => ⟨Token.isLegible_of_read ht t hm, hshort t hm⟩⟩

/-- The places of references stand one after the other, and a reference is named at each. -/
theorem sites_placed {text : String} {node : Node} (h : read text = .ok node) :
    node.sites.Pairwise (fun s other => s.2 < other.2) ∧
      ∀ s ∈ node.sites, s.1.Starts (text.toList.drop s.2) := by
  obtain ⟨tokens, ht, hnames⟩ := names_sites_of_read h
  have hplaced := Token.placed_of_read ht
  constructor
  · have hpositions : node.sites.map Prod.snd = (tokens.filter Refers).map (·.position) :=
      map_eq_of_forall₂ (fun _ _ hn => hn.1) hnames
    rw [← List.pairwise_map (f := Prod.snd) (R := (· < ·)), hpositions, List.pairwise_map]
    exact hplaced.ascending.filter Refers
  · intro s hs
    obtain ⟨t, hm, hposition, hnamed⟩ := exists_of_forall₂ hnames.flip s hs
    have hm := (List.mem_filter.1 hm).1
    have hstands := (hplaced.stands t hm).2
    rw [Nat.sub_zero] at hstands
    rw [hposition]
    rcases hnamed with ⟨-, hname⟩ | ⟨hk, n, hn, horder⟩
    · rw [hname, Reference.Starts, Token.text, String.toList_ofList]
      exact hstands
    · have hadmits := Token.admits_of_mem_scan (Token.read_eq_ok_iff.1 ht) t hm
      rw [hk] at hadmits
      obtain ⟨ds, hchars, -, -⟩ := hadmits
      rw [hchars] at hn hstands
      rw [horder]
      exact ⟨ds, hstands, hn⟩

end Node

namespace Context
variable {text : String} {node : Node} {c : Context}

def found (c : Context) (text : String) (ref : Reference) (position : Nat) : Except Error Amount :=
  match c.bindings.get? ref with
  | some a => .ok a
  | none => .error (ref.undefinedError ⟨some text, some position⟩)

theorem value_run (c : Context) (text : String) (node : Node) :
    (node.value fun ref position => lookup none ⟨some text, some position⟩ ref).run c =
      (node.outcome (c.found text), c) := by
  refine node.value_run fun ref _ position => ?_
  unfold found
  cases h : c.bindings.get? ref with
  | some a => exact lookup_bound h
  | none => exact lookup_none h

theorem evaluate_run (hread : Node.read text = .ok node) :
    (evaluate none text).run c = (node.outcome (c.found text), c) := by
  unfold evaluate evaluateWith
  rw [hread]
  exact value_run c text node

def real? (c : Context) (ref : Reference) : Option Float := (c.bindings.get? ref).bind Amount.real?

theorem found_bound (hreal : ∀ ref a, c.bindings.get? ref = some a → a.IsReal) {ref : Reference}
    (h : c.bindings.get? ref ≠ none) (position : Nat) :
    c.found text ref position = .ok (ofReal (c.real? ref)) := by
  obtain ⟨a, ha⟩ := Option.ne_none_iff_exists'.1 h
  rw [found, real?, ha]
  exact congrArg Except.ok (hreal ref a ha).eq_ofReal

theorem found_unbound {ref : Reference} (h : c.bindings.get? ref = none) (position : Nat) :
    c.found text ref position =
      .error (.undefinedReference ref.text (some text) (some position)) := by
  rw [found, h]
  rfl

/-- A reference with a value has none that is available exactly if it is set to none. -/
theorem real?_eq_none_iff (hreal : ∀ ref a, c.bindings.get? ref = some a → a.IsReal)
    {ref : Reference} (h : c.bindings.get? ref ≠ none) :
    c.real? ref = none ↔ c.bindings.get? ref = some none := by
  obtain ⟨a, ha⟩ := Option.ne_none_iff_exists'.1 h
  rw [real?, ha, Option.bind_some]
  constructor
  · intro hn
    rw [(hreal ref a ha).eq_ofReal, hn, ofReal_none]
  · intro hn
    rw [Option.some.inj hn]
    rfl

theorem get?_of_real? (hreal : ∀ ref a, c.bindings.get? ref = some a → a.IsReal)
    {ref : Reference} {x : Float} (h : c.real? ref = some x) :
    c.bindings.get? ref = some (some (.real x)) := by
  obtain ⟨a, ha, hx⟩ := Option.bind_eq_some_iff.1 h
  rw [ha, (hreal ref a ha).eq_ofReal, hx, ofReal_some]

/-- Where all references of an expression have values, so has any expression with no others. -/
theorem outcome_found (hreal : ∀ ref a, c.bindings.get? ref = some a → a.IsReal)
    (hbound : ∀ s ∈ node.sites, c.bindings.get? s.1 ≠ none) {d : Node}
    (hd : ∀ ref ∈ d.occurrences, ref ∈ node.occurrences) :
    d.outcome (c.found text) = .ok (ofReal (d.meaning c.real?)) := by
  refine d.outcome_eq_meaning fun ref hm position => ?_
  obtain ⟨s, hs, rfl⟩ := Node.mem_occurrences_iff.1 (hd ref hm)
  exact found_bound hreal (hbound s hs) position

/-- The value of an expression is missing for want of the value of a reference, or by a zero. -/
theorem meaning_real?_eq_none_iff (hreal : ∀ ref a, c.bindings.get? ref = some a → a.IsReal)
    (hbound : ∀ s ∈ node.sites, c.bindings.get? s.1 ≠ none) :
    node.meaning c.real? = none ↔ (∃ s ∈ node.sites, c.bindings.get? s.1 = some none) ∨
      ∃ d ∈ node.divisors, ∃ y : Float,
        (d.value fun ref position => lookup none ⟨some text, some position⟩ ref).run c =
          (.ok (some (.real y)), c) ∧ (y == 0.0) = true := by
  rw [node.meaning_eq_none_iff]
  refine or_congr ?_ (exists_congr fun d => and_congr_right fun hd => exists_congr fun y =>
    and_congr_left fun _ => ?_)
  · constructor
    · rintro ⟨ref, hm, hn⟩
      obtain ⟨s, hs, rfl⟩ := Node.mem_occurrences_iff.1 hm
      exact ⟨s, hs, (real?_eq_none_iff hreal (hbound s hs)).1 hn⟩
    · rintro ⟨s, hs, hn⟩
      exact ⟨s.1, Node.mem_occurrences_iff.2 ⟨s, hs, rfl⟩,
        (real?_eq_none_iff hreal (hbound s hs)).2 hn⟩
  · rw [value_run, outcome_found hreal hbound (Node.occurrences_of_mem_divisors hd)]
    constructor
    · intro hy
      rw [hy, ofReal_some]
    · intro hy
      exact ofReal_injective (Except.ok.inj (Prod.mk.inj hy).1)

theorem meaning_real?_eq_arithmetic (hreal : ∀ ref a, c.bindings.get? ref = some a → a.IsReal)
    (hsome : node.meaning c.real? ≠ none) : ∃ σ : Reference → Float,
      (∀ s ∈ node.sites, c.bindings.get? s.1 = some (some (.real (σ s.1)))) ∧
        node.meaning c.real? = some (node.arithmetic σ) := by
  have hvalue : ∀ ref ∈ node.occurrences, c.real? ref = some ((c.real? ref).getD 0.0) := by
    intro ref hm
    have hne : c.real? ref ≠ none := fun hn =>
      hsome (node.meaning_eq_none_iff.2 (.inl ⟨ref, hm, hn⟩))
    obtain ⟨x, hx⟩ := Option.ne_none_iff_exists'.1 hne
    rw [hx, Option.getD_some]
  refine ⟨fun ref => (c.real? ref).getD 0.0, fun s hs => ?_, ?_⟩
  · exact get?_of_real? hreal (hvalue s.1 (Node.mem_occurrences_iff.2 ⟨s, hs, rfl⟩))
  · obtain ⟨x, hx⟩ := Option.ne_none_iff_exists'.1 hsome
    rw [hx]
    rw [node.meaning_congr hvalue] at hx
    rw [Node.meaning_eq_some hx]

/-- Without definitions an expression fails with its first reference that has no value. Otherwise
it gives its arithmetic value, which is not available exactly if that of a reference is not or a
divisor is zero. The context stays as it is. -/
theorem evaluate_strict {text : String} {node : Node} {c : Context}
    (hread : Node.read text = .ok node)
    (hreal : ∀ ref a, c.bindings.get? ref = some a → a.IsReal) :
    (node.sites.Pairwise (fun s other => s.2 < other.2) ∧
      ∀ s ∈ node.sites, s.1.Starts (text.toList.drop s.2)) ∧
    ((∃ e after, (evaluate none text).run c = (.error e, after)) ↔
      ∃ s ∈ node.sites, c.bindings.get? s.1 = none) ∧
    (∀ pre s post, node.sites = pre ++ s :: post →
      (∀ other ∈ pre, c.bindings.get? other.1 ≠ none) → c.bindings.get? s.1 = none →
      (evaluate none text).run c =
        (.error (.undefinedReference s.1.text (some text) (some s.2)), c)) ∧
    ((∀ s ∈ node.sites, c.bindings.get? s.1 ≠ none) →
      ∃ a : Option Float, (evaluate none text).run c = (.ok (ofReal a), c) ∧
        (a = none ↔ (∃ s ∈ node.sites, c.bindings.get? s.1 = some none) ∨
          ∃ d ∈ node.divisors, ∃ y : Float,
            (d.value fun ref position => lookup none ⟨some text, some position⟩ ref).run c =
              (.ok (some (.real y)), c) ∧ (y == 0.0) = true) ∧
        (a ≠ none → ∃ σ : Reference → Float,
          (∀ s ∈ node.sites, c.bindings.get? s.1 = some (some (.real (σ s.1)))) ∧
            a = some (node.arithmetic σ))) := by
  have hfirst : ∀ pre s post, node.sites = pre ++ s :: post →
      (∀ other ∈ pre, c.bindings.get? other.1 ≠ none) → c.bindings.get? s.1 = none →
      (evaluate none text).run c =
        (.error (.undefinedReference s.1.text (some text) (some s.2)), c) := by
    intro pre s post hsites hpre hs
    rw [evaluate_run hread, node.outcome_first hsites
      (fun other ho position => found_bound hreal (hpre other ho) position)
      (found_unbound hs s.2)]
  have hvalue : (∀ s ∈ node.sites, c.bindings.get? s.1 ≠ none) →
      (evaluate none text).run c = (.ok (ofReal (node.meaning c.real?)), c) := by
    intro hbound
    rw [evaluate_run hread, outcome_found hreal hbound fun _ hm => hm]
  refine ⟨Node.sites_placed hread, ⟨?_, ?_⟩, hfirst, ?_⟩
  · rintro ⟨e, after, he⟩
    by_contra hn
    rw [hvalue fun s hs hnone => hn ⟨s, hs, hnone⟩] at he
    cases he
  · rintro ⟨s, hs, hnone⟩
    obtain ⟨pre, first, post, hsites, hpre, hf⟩ := exists_first
      (P := fun s : Reference × Nat => c.bindings.get? s.1 ≠ none) ⟨s, hs, not_not.2 hnone⟩
    exact ⟨_, _, hfirst pre first post hsites hpre (not_not.1 hf)⟩
  · intro hbound
    exact ⟨node.meaning c.real?, hvalue hbound, meaning_real?_eq_none_iff hreal hbound,
      meaning_real?_eq_arithmetic hreal⟩

def scarce : Context := ⟨⟨[("a", none), ("zero", some (.real 0.0))], []⟩, []⟩

/-- An undefined reference is told behind a value that is missing and a quotient by zero. -/
theorem evaluate_strict_scarce :
    (∃ node, Node.read "a / zero + b" = .ok node) ∧
    (∀ ref a, scarce.bindings.get? ref = some a → a.IsReal) ∧
    (evaluate none "a / zero + b").run scarce =
      (.error (.undefinedReference "var:b" (some "a / zero + b") (some 11)), scarce) := by
  have hread : Node.read "a / zero + b" = .ok (.binary .add
      (.binary .divide (.variableAt "a" 0) (.variableAt "zero" 4)) (.variableAt "b" 11)) := by
    cbv
  have hreal : ∀ ref a, scarce.bindings.get? ref = some a → a.IsReal := by
    intro ref a h
    cases ref with
    | name v =>
      by_cases ha : "a" = v
      · subst ha
        cases h
        rfl
      · by_cases hz : "zero" = v
        · subst hz
          cases h
          rfl
        · simp [scarce, Bindings.get?, getPair?, ha, hz] at h
    | order n => cases h
  refine ⟨⟨_, hread⟩, hreal, ?_⟩
  obtain ⟨-, -, hfirst, -⟩ := evaluate_strict hread hreal
  refine hfirst [(.name "a", 0), (.name "zero", 4)] (.name "b", 11) [] rfl ?_ rfl
  intro other ho
  simp only [List.mem_cons, List.not_mem_nil, or_false] at ho
  rcases ho with rfl | rfl
  all_goals
    intro h
    cases h

end Context
end LedgerReport
