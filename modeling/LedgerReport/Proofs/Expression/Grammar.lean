import LedgerReport.Expression.Reader
import LedgerReport.Proofs.Expression.Lexeme
import LedgerReport.Proofs.Traversal
/-!
The grammar of expressions, and that reading follows it.

A sum is a product, or a sum, `+` or `-`, and a product; a product is an operand, or a product, `*`
or `/`, and an operand; an operand is a sign and an operand, or a primary; a primary is a number, a
name, a row, or a sum in parentheses. Since the left part of a chain is a chain again and the right
part is not, chains are grouped from the left.

What the reader reads is derived in the grammar (`derives_of_readSum`).
-/

set_option autoImplicit false

namespace LedgerReport

def Token.IsOperator (t : Token) (text : String) : Prop := t.kind = .operator ∧ t.text = text

namespace Grammar

inductive Stratum where
  | sum
  | product
  | operand
  | primary

def stratumOf : Operator → Stratum
  | .add | .subtract => .sum
  | .multiply | .divide => .product

inductive Derives : Stratum → List Token → Node → Prop
  | number {t : Token} {x : Float} (hk : t.kind = .number)
      (hx : Numeral.readReal? t.text = some x) : Derives .primary [t] (.literal x)
  | name {t : Token} (hk : t.kind = .name) : Derives .primary [t] (.variableAt t.text t.position)
  | order {t : Token} {n : Nat} (hk : t.kind = .order)
      (hn : Text.digitsValue? t.digits = some n) : Derives .primary [t] (.orderAt n t.position)
  | enclosed {t u : Token} {ts : List Token} {node : Node} (ht : t.kind = .opening)
      (hu : u.kind = .closing) (h : Derives .sum ts node) :
      Derives .primary (t :: (ts ++ [u])) node
  | ofPrimary {ts : List Token} {node : Node} (h : Derives .primary ts node) :
      Derives .operand ts node
  | signed {t : Token} {ts : List Token} {sign : Sign} {node : Node} (ht : t.IsOperator sign.text)
      (h : Derives .operand ts node) : Derives .operand (t :: ts) (.signed sign node)
  | ofOperand {ts : List Token} {node : Node} (h : Derives .operand ts node) :
      Derives .product ts node
  | ofProduct {ts : List Token} {node : Node} (h : Derives .product ts node) :
      Derives .sum ts node
  | multiplied {t : Token} {ts us : List Token} {op : Operator} {left right : Node}
      (hl : Derives .product ts left) (ho : stratumOf op = .product) (ht : t.IsOperator op.text)
      (hr : Derives .operand us right) :
      Derives .product (ts ++ t :: us) (.binary op left right)
  | added {t : Token} {ts us : List Token} {op : Operator} {left right : Node}
      (hl : Derives .sum ts left) (ho : stratumOf op = .sum) (ht : t.IsOperator op.text)
      (hr : Derives .product us right) : Derives .sum (ts ++ t :: us) (.binary op left right)

end Grammar

open Grammar

theorem Token.IsOperator.chars_eq {t : Token} {text : String} (h : t.IsOperator text) :
    t.chars = text.toList := by
  rw [← h.2, Token.text, String.toList_ofList]

theorem Sign.ofToken?_of_kind {t : Token} (h : t.kind ≠ .operator) : ofToken? t = none := if_neg h

theorem Sign.ofToken?_eq_some_iff {t : Token} {sign : Sign} :
    ofToken? t = some sign ↔ t.IsOperator sign.text := by
  constructor
  · intro h
    unfold ofToken? at h
    split at h
    · rename_i hk
      split at h
      · rename_i hc
        cases h
        exact ⟨hk, by rw [Token.text, hc]; rfl⟩
      · rename_i hc
        cases h
        exact ⟨hk, by rw [Token.text, hc]; rfl⟩
      · cases h
    · cases h
  · intro h
    unfold ofToken?
    rw [if_pos h.1, h.chars_eq]
    cases sign <;> rfl

namespace Operator

theorem ofSumToken?_eq_some_iff {t : Token} {op : Operator} :
    ofSumToken? t = some op ↔ stratumOf op = .sum ∧ t.IsOperator op.text := by
  unfold ofSumToken?
  rw [Option.map_eq_some_iff]
  simp only [Sign.ofToken?_eq_some_iff]
  constructor
  · rintro ⟨sign, ht, rfl⟩
    cases sign <;> exact ⟨rfl, ht⟩
  · rintro ⟨ho, ht⟩
    cases op with
    | add => exact ⟨.plus, ht, rfl⟩
    | subtract => exact ⟨.minus, ht, rfl⟩
    | multiply => cases ho
    | divide => cases ho

theorem ofProductToken?_eq_some_iff {t : Token} {op : Operator} :
    ofProductToken? t = some op ↔ stratumOf op = .product ∧ t.IsOperator op.text := by
  constructor
  · intro h
    unfold ofProductToken? at h
    split at h
    · rename_i hk
      split at h
      · rename_i hc
        cases h
        exact ⟨rfl, hk, by rw [Token.text, hc]; rfl⟩
      · rename_i hc
        cases h
        exact ⟨rfl, hk, by rw [Token.text, hc]; rfl⟩
      · cases h
    · cases h
  · rintro ⟨ho, ht⟩
    unfold ofProductToken?
    rw [if_pos ht.1, ht.chars_eq]
    cases op with
    | add => cases ho
    | subtract => cases ho
    | multiply => rfl
    | divide => rfl

end Operator

namespace Node

theorem ofOrder_eq {t : Token} (hk : t.kind = .order) (ht : t.IsLegible) :
    ofOrder t = match t.overlong? with
      | some digits => .error (.overlong digits)
      | none => .ok (.orderAt (Text.digitsValue t.digits) t.position) := by
  obtain ⟨hd, hn⟩ := ht.order hk
  have hread := Numeral.readWhole?_digits hd hn
  unfold ofOrder Token.overlong?
  rw [Token.digits] at hread ⊢
  by_cases hl : (t.chars.drop 1).length ≤ Numeral.digitLimit
  · simp only [hread, if_pos hl, if_neg fun h : _ ∧ _ => Nat.not_lt.2 hl h.2, Int.toNat_natCast]
  · simp only [hread, if_neg hl, if_pos (And.intro hk (Nat.not_le.1 hl))]

theorem derives_order {t : Token} (hk : t.kind = .order) (ht : t.IsLegible) :
    Derives .primary [t] (.orderAt (Text.digitsValue t.digits) t.position) :=
  .order hk (Numeral.digitsValue?_eq_some_iff.2 ⟨(ht.order hk).1, rfl⟩)

theorem derives_of_ofToken? {t : Token} {node : Node} (ht : t.IsLegible)
    (h : ofToken? t = some (.ok node)) : Derives .primary [t] node := by
  unfold ofToken? at h
  split at h
  · rename_i hk
    cases h
    obtain ⟨x, hx⟩ := ht.number hk
    rw [hx]
    exact .number hk hx
  · rename_i hk
    cases h
    exact .name hk
  · rename_i hk
    rw [ofOrder_eq hk ht, Option.some.injEq] at h
    split at h
    · cases h
    · cases h
      exact derives_order hk ht
  · cases h

theorem derives_of_ofToken?_error {t : Token} {stop : Stop} (ht : t.IsLegible)
    (h : ofToken? t = some (.error stop)) : ∃ digits node, stop = .overlong digits ∧
      t.overlong? = some digits ∧ Derives .primary [t] node := by
  unfold ofToken? at h
  split at h
  · cases h
  · cases h
  · rename_i hk
    rw [ofOrder_eq hk ht, Option.some.injEq] at h
    split at h
    · rename_i digits ho
      cases h
      exact ⟨digits, _, rfl, ho, derives_order hk ht⟩
    · cases h
  · cases h

mutual

theorem derives_of_readOperand {ts : List Token} (hts : ∀ t ∈ ts, t.IsLegible) {node : Node}
    {rest : { rest : List Token // rest.length < ts.length }}
    (h : readOperand ts = .ok (node, rest)) :
    ∃ used, ts = used ++ rest.1 ∧ Derives .operand used node := by
  cases ts with
  | nil =>
    rw [readOperand] at h
    cases h
  | cons t r =>
    have hr : ∀ u ∈ r, u.IsLegible := fun u hu => hts u (List.mem_cons_of_mem t hu)
    rw [readOperand] at h
    split at h
    · rename_i sign hs
      obtain ⟨⟨operand, rest'⟩, ho, h⟩ := bind_eq_ok.1 h
      cases h
      obtain ⟨used, hu, hd⟩ := derives_of_readOperand hr ho
      exact ⟨t :: used, congrArg (t :: ·) hu, .signed (Sign.ofToken?_eq_some_iff.1 hs) hd⟩
    split at h
    · rename_i leaf hl
      obtain ⟨node', rfl, he⟩ := except_map_eq_ok.1 h
      cases he
      exact ⟨[t], rfl, .ofPrimary (derives_of_ofToken? (hts t List.mem_cons_self) hl)⟩
    split at h
    · rename_i hopen
      obtain ⟨⟨inner, after⟩, hi, h⟩ := bind_eq_ok.1 h
      obtain ⟨used, hu, hd⟩ := derives_of_readSum hr hi
      obtain ⟨after, ha⟩ := after
      cases after with
      | nil => cases h
      | cons u rest' =>
        dsimp only at h
        split at h
        · rename_i hclose
          cases h
          refine ⟨t :: (used ++ [u]), ?_, .ofPrimary (.enclosed hopen hclose hd)⟩
          rw [List.cons_append, List.append_assoc, List.singleton_append]
          exact congrArg (t :: ·) hu
        · cases h
    · cases h
termination_by (ts.length, 0)

theorem derives_of_readProductFrom {ts : List Token} (hts : ∀ t ∈ ts, t.IsLegible)
    {left node : Node} {rest : { rest : List Token // rest.length ≤ ts.length }}
    (h : readProductFrom left ts = .ok (node, rest)) {before : List Token}
    (hl : Derives .product before left) :
    ∃ used, ts = used ++ rest.1 ∧ Derives .product (before ++ used) node := by
  match ts, rest, hts, h with
  | [], rest, hts, h =>
    rw [readProductFrom] at h
    cases h
    exact ⟨[], rfl, by rwa [List.append_nil]⟩
  | t :: r, rest, hts, h =>
    have hr : ∀ u ∈ r, u.IsLegible := fun u hu => hts u (List.mem_cons_of_mem t hu)
    rw [readProductFrom] at h
    split at h
    · rename_i op ho
      obtain ⟨⟨right, after⟩, hright, h⟩ := bind_eq_ok.1 h
      obtain ⟨⟨node', rest'⟩, hnode, h⟩ := bind_eq_ok.1 h
      cases h
      obtain ⟨hs, ht⟩ := Operator.ofProductToken?_eq_some_iff.1 ho
      obtain ⟨used, hu, hd⟩ := derives_of_readOperand hr hright
      have ha : ∀ u ∈ after.1, u.IsLegible := fun u hm =>
        hr u (hu ▸ List.mem_append_right used hm)
      obtain ⟨more, hm, hd'⟩ := derives_of_readProductFrom ha hnode (.multiplied hl hs ht hd)
      refine ⟨t :: used ++ more, ?_, by simpa using hd'⟩
      rw [List.append_assoc, ← hm, List.cons_append, ← hu]
    · cases h
      exact ⟨[], rfl, by rwa [List.append_nil]⟩
termination_by (ts.length, 1)
decreasing_by
  · exact Prod.Lex.left _ _ (Nat.lt_succ_self _)
  · exact Prod.Lex.left _ _ (Nat.lt_succ_of_lt after.2)

theorem derives_of_readProduct {ts : List Token} (hts : ∀ t ∈ ts, t.IsLegible) {node : Node}
    {rest : { rest : List Token // rest.length < ts.length }}
    (h : readProduct ts = .ok (node, rest)) :
    ∃ used, ts = used ++ rest.1 ∧ Derives .product used node := by
  rw [readProduct] at h
  obtain ⟨⟨left, after⟩, hleft, h⟩ := bind_eq_ok.1 h
  obtain ⟨⟨node', rest'⟩, hnode, h⟩ := bind_eq_ok.1 h
  cases h
  obtain ⟨used, hu, hd⟩ := derives_of_readOperand hts hleft
  have ha : ∀ u ∈ after.1, u.IsLegible := fun u hm =>
    hts u (hu ▸ List.mem_append_right used hm)
  obtain ⟨more, hm, hd'⟩ := derives_of_readProductFrom ha hnode (.ofOperand hd)
  exact ⟨used ++ more, by rw [List.append_assoc, ← hm, ← hu], hd'⟩
termination_by (ts.length, 2)
decreasing_by
  · exact Prod.Lex.right _ (by omega)
  · exact Prod.Lex.left _ _ after.2

theorem derives_of_readSumFrom {ts : List Token} (hts : ∀ t ∈ ts, t.IsLegible)
    {left node : Node} {rest : { rest : List Token // rest.length ≤ ts.length }}
    (h : readSumFrom left ts = .ok (node, rest)) {before : List Token}
    (hl : Derives .sum before left) :
    ∃ used, ts = used ++ rest.1 ∧ Derives .sum (before ++ used) node := by
  match ts, rest, hts, h with
  | [], rest, hts, h =>
    rw [readSumFrom] at h
    cases h
    exact ⟨[], rfl, by rwa [List.append_nil]⟩
  | t :: r, rest, hts, h =>
    have hr : ∀ u ∈ r, u.IsLegible := fun u hu => hts u (List.mem_cons_of_mem t hu)
    rw [readSumFrom] at h
    split at h
    · rename_i op ho
      obtain ⟨⟨right, after⟩, hright, h⟩ := bind_eq_ok.1 h
      obtain ⟨⟨node', rest'⟩, hnode, h⟩ := bind_eq_ok.1 h
      cases h
      obtain ⟨hs, ht⟩ := Operator.ofSumToken?_eq_some_iff.1 ho
      obtain ⟨used, hu, hd⟩ := derives_of_readProduct hr hright
      have ha : ∀ u ∈ after.1, u.IsLegible := fun u hm =>
        hr u (hu ▸ List.mem_append_right used hm)
      obtain ⟨more, hm, hd'⟩ := derives_of_readSumFrom ha hnode (.added hl hs ht hd)
      refine ⟨t :: used ++ more, ?_, by simpa using hd'⟩
      rw [List.append_assoc, ← hm, List.cons_append, ← hu]
    · cases h
      exact ⟨[], rfl, by rwa [List.append_nil]⟩
termination_by (ts.length, 3)
decreasing_by
  · exact Prod.Lex.left _ _ (Nat.lt_succ_self _)
  · exact Prod.Lex.left _ _ (Nat.lt_succ_of_lt after.2)

theorem derives_of_readSum {ts : List Token} (hts : ∀ t ∈ ts, t.IsLegible) {node : Node}
    {rest : { rest : List Token // rest.length < ts.length }}
    (h : readSum ts = .ok (node, rest)) :
    ∃ used, ts = used ++ rest.1 ∧ Derives .sum used node := by
  rw [readSum] at h
  obtain ⟨⟨left, after⟩, hleft, h⟩ := bind_eq_ok.1 h
  obtain ⟨⟨node', rest'⟩, hnode, h⟩ := bind_eq_ok.1 h
  cases h
  obtain ⟨used, hu, hd⟩ := derives_of_readProduct hts hleft
  have ha : ∀ u ∈ after.1, u.IsLegible := fun u hm =>
    hts u (hu ▸ List.mem_append_right used hm)
  obtain ⟨more, hm, hd'⟩ := derives_of_readSumFrom ha hnode (.ofProduct hd)
  exact ⟨used ++ more, by rw [List.append_assoc, ← hm, ← hu], hd'⟩
termination_by (ts.length, 4)
decreasing_by
  · exact Prod.Lex.right _ (by omega)
  · exact Prod.Lex.left _ _ after.2

end

end Node
end LedgerReport
