import Mathlib.Data.List.Forall2
import LedgerReport.Report.Read
set_option autoImplicit false

namespace LedgerReport

namespace Decoded
variable {α β : Type} {entries : Entries} {names : List String} {name : String}
  {read : Value → Decoded α} {v : Value}

theorem map_eq_ok {f : α → β} {x : Decoded α} {b : β} :
    f <$> x = .ok b ↔ ∃ a, x = .ok a ∧ f a = b := by
  cases x with
  | ok a => simp [Functor.map, map]
  | bad flaws => simp [Functor.map, map]

theorem seq_eq_ok {f : Decoded (α → β)} {x : Decoded α} {b : β} :
    f <*> x = .ok b ↔ ∃ g a, f = .ok g ∧ x = .ok a ∧ g a = b := by
  cases f with
  | ok g => cases x <;> simp [Seq.seq, seq]
  | bad flaws => cases x <;> simp [Seq.seq, seq]

theorem under_eq_ok {x : Decoded α} {a : α} : x.under name = .ok a ↔ x = .ok a := by
  cases x <;> simp [under]

theorem demand_eq_ok {message : String} {test : α → Bool} {x : Decoded α} {a : α} :
    x.demand message test = .ok a ↔ x = .ok a ∧ test a = true := by
  cases x with
  | bad flaws => simp [demand]
  | ok b =>
    by_cases ht : test b = true
    · rw [demand, if_pos ht]
      constructor
      · rintro ⟨⟩
        exact ⟨rfl, ht⟩
      · exact And.left
    · rw [demand, if_neg ht]
      constructor
      · rintro ⟨⟩
      · rintro ⟨⟨⟩, h⟩
        exact absurd h ht

theorem all_eq_ok {xs : List (Decoded α)} {as : List α} :
    all xs = .ok as ↔ List.Forall₂ (fun x a => x = .ok a) xs as := by
  induction xs generalizing as with
  | nil => simp [all, eq_comm]
  | cons x xs ih =>
    rw [all, seq_eq_ok, List.forall₂_cons_left_iff]
    simp only [map_eq_ok, ih]
    constructor
    · rintro ⟨_, r, ⟨a, ha, rfl⟩, hr, rfl⟩
      exact ⟨a, r, ha, hr, rfl⟩
    · rintro ⟨a, r, ha, hr, rfl⟩
      exact ⟨_, r, ⟨a, ha, rfl⟩, hr, rfl⟩

theorem list_eq_ok {as : List α} : list read v = .ok as ↔
    ∃ items, v = .list items ∧ List.Forall₂ (fun v a => read v = .ok a) items as := by
  cases v with
  | list items =>
    have hitems : items.zipIdx.map Prod.fst = items := List.zipIdx_map_fst 0 items
    simp only [list, all_eq_ok, List.forall₂_map_left_iff, under_eq_ok, Value.list.injEq,
      exists_eq_left']
    rw [← hitems, List.forall₂_map_left_iff, hitems]
  | _ => simp [list, flaw]

theorem dictionary_eq_ok {pairs : List (String × α)} : dictionary read v = .ok pairs ↔
    ∃ es, v = .map es ∧
      List.Forall₂ (fun e p => e.1 = .text p.1 ∧ read e.2 = .ok p.2) es pairs := by
  cases v with
  | map es =>
    simp only [dictionary, all_eq_ok, List.forall₂_map_left_iff, Value.map.injEq, exists_eq_left']
    refine iff_of_eq (congrArg (List.Forall₂ · es pairs) ?_)
    funext e p
    obtain ⟨key, v⟩ := e
    obtain ⟨name, a⟩ := p
    cases key <;> simp [seq_eq_ok, map_eq_ok, under_eq_ok, flaw, and_comm]
  | _ => simp [dictionary, flaw]

theorem required_eq_ok {a : α} (h : required entries names read = .ok a) :
    ∃ v, read v = .ok a := by
  unfold required at h
  split at h
  · exact ⟨_, under_eq_ok.1 h⟩
  · cases h

theorem optional_eq_ok {default a : α} (h : optional entries names default read = .ok a) :
    a = default ∨ ∃ v, read v = .ok a := by
  unfold optional at h
  split at h
  · exact .inr ⟨_, under_eq_ok.1 h⟩
  · cases h
    exact .inl rfl

theorem nullable_eq_some {a : α} (h : nullable read v = .ok (some a)) : read v = .ok a := by
  cases v with
  | null => cases h
  | _ =>
    obtain ⟨b, hb, he⟩ := map_eq_ok.1 h
    cases he
    exact hb

theorem between_eq_ok {least most n : Int} (h : between least most v = .ok n) :
    least ≤ n ∧ n ≤ most := by
  unfold between at h
  split at h
  · split at h
    · cases h
    · split at h
      · cases h
      · cases h
        omega
  · cases h

end Decoded

open Decoded

theorem Variable.decode_eq_ok {v : Value} {x : Variable} : decode v = .ok x ↔
    ∃ es, v = .map es ∧ optional es ["filter"] [] decodeFilter = .ok x.filter ∧
      optional es ["aggregate"] "sum" text = .ok x.aggregate ∧
      optional es ["description"] none (nullable text) = .ok x.description := by
  obtain ⟨filter, aggregate, description⟩ := x
  cases v with
  | map es => simp [decode, model, seq_eq_ok, map_eq_ok]
  | _ => simp [decode, model, flaw]

theorem Item.decodeAs_eq_ok {type : RowType} {es : Entries} {i : Item} :
    decodeAs type es = .ok i ↔
      required es ["order"] (atLeast 0) = .ok i.order ∧
      optional es ["label"] none (nullable text) = .ok i.label ∧
      optional es ["format"] none (nullable (oneOf FormatName.all FormatName.name)) =
        .ok i.format ∧
      optional es ["style"] none (nullable (oneOf Style.all Style.name)) = .ok i.style ∧
      optional es ["indent"] 0 (between 0 3) = .ok i.indent ∧
      Content.decode type es = .ok i.content := by
  obtain ⟨order, label, format, style, indent, content⟩ := i
  simp [decodeAs, seq_eq_ok, map_eq_ok, and_assoc]

theorem Item.decode_eq_ok {v : Value} {i : Item} : decode v = .ok i ↔
    ∃ es tag type, v = .map es ∧ Entries.get? es "type" = some tag ∧
      (RowType.all.find? fun t => tag.same (.text t.name)) = some type ∧
      decodeAs type es = .ok i := by
  cases v with
  | map es =>
    cases htag : Entries.get? es "type" with
    | none => simp [decode, htag, flaw]
    | some tag =>
      cases htype : RowType.all.find? fun t => tag.same (.text t.name) with
      | none => simp [decode, htag, htype, flaw]
      | some type => simp [decode, htag, htype, under_eq_ok]
  | _ => simp [decode, flaw]

theorem FormatRule.decode_eq_ok {v : Value} {r : FormatRule} : decode v = .ok r ↔
    ∃ es, v = .map es ∧ optional es ["decimals"] 0 (between 0 4) = .ok r.decimals ∧
      optional es ["thousands"] true boolean = .ok r.thousands ∧
      optional es ["symbol"] none (nullable fun v =>
        (text v).demand "String should have at most 5 characters" fun s => s.length ≤ 5) =
          .ok r.symbol := by
  obtain ⟨decimals, thousands, symbol⟩ := r
  cases v with
  | map es => simp [-Bool.exists_bool, decode, model, seq_eq_ok, map_eq_ok]
  | _ => simp [decode, model, flaw]

theorem FormatName.forall_iff {p : FormatName → Prop} :
    (∀ f, p f) ↔ p .currency ∧ p .percent ∧ p .integer ∧ p .decimal := by
  constructor
  · exact fun h => ⟨h _, h _, h _, h _⟩
  · rintro ⟨hcurrency, hpercent, hinteger, hdecimal⟩ f
    cases f <;> assumption

theorem FormattingRules.decode_eq_ok {v : Value} {r : FormattingRules} : decode v = .ok r ↔
    ∃ es, v = .map es ∧
      ∀ f : FormatName, optional es [f.name] (standard.rule f) FormatRule.decode =
        .ok (r.rule f) := by
  obtain ⟨currency, percent, integer, decimal⟩ := r
  cases v with
  | map es =>
    simp [FormatName.forall_iff, FormatName.name, rule, decode, model, seq_eq_ok, map_eq_ok,
      and_assoc]
  | _ => simp [decode, model, flaw]

/-- Whether values are displayed with no more than four places. -/
def FormatRule.InBounds (r : FormatRule) : Prop := 0 ≤ r.decimals ∧ r.decimals ≤ 4

instance (r : FormatRule) : Decidable r.InBounds := inferInstanceAs (Decidable (_ ∧ _))

def FormattingRules.InBounds (r : FormattingRules) : Prop := ∀ f, (r.rule f).InBounds

/-- Whether the rules of a report, if it has any, are in bounds. -/
def Report.InBounds (r : Report) : Prop := ∀ rules, r.formatting = some rules → rules.InBounds

theorem FormattingRules.standard_inBounds : standard.InBounds := by
  intro f
  cases f <;> decide

theorem FormatRule.decode_inBounds {v : Value} {r : FormatRule} (h : decode v = .ok r) :
    r.InBounds := by
  obtain ⟨es, -, hd, -, -⟩ := decode_eq_ok.1 h
  rcases optional_eq_ok hd with hd | ⟨v, hv⟩
  · simp [InBounds, hd]
  · exact between_eq_ok hv

theorem FormatRule.optional_inBounds {es : Entries} {names : List String} {default r : FormatRule}
    (hd : default.InBounds) (h : optional es names default decode = .ok r) : r.InBounds := by
  rcases optional_eq_ok h with rfl | ⟨v, hv⟩
  · exact hd
  · exact decode_inBounds hv

theorem FormattingRules.decode_inBounds {v : Value} {r : FormattingRules} (h : decode v = .ok r) :
    r.InBounds := by
  obtain ⟨es, -, hrules⟩ := decode_eq_ok.1 h
  exact fun f => FormatRule.optional_inBounds (standard_inBounds f) (hrules f)

namespace Report

theorem decodeEntries_eq_ok {es : Entries} {r : Report} : decodeEntries es = .ok r ↔
    required es ["reportId", "report_id"] (fun v =>
      (text v).demand "String should match pattern '^[a-z0-9_-]+$'" isId) = .ok r.id ∧
    required es ["name"] (fun v =>
      (text v).demand "String should have at least 1 character" fun s => !s.isEmpty) =
        .ok r.name ∧
    required es ["version"] (fun v =>
      (text v).demand "String should match pattern '^\\d+\\.\\d+\\.\\d+$'" isVersion) =
        .ok r.version ∧
    required es ["statementType", "statement_type"]
      (oneOf StatementKind.all StatementKind.name) = .ok r.statement ∧
    optional es ["description"] none (nullable text) = .ok r.description ∧
    optional es ["variables"] [] (dictionary Variable.decode) = .ok r.vars ∧
    optional es ["layout"] [] (list Item.decode) = .ok r.layout ∧
    optional es ["formatting"] none (nullable FormattingRules.decode) = .ok r.formatting := by
  obtain ⟨id, name, version, statement, description, vars, layout, formatting⟩ := r
  simp [decodeEntries, seq_eq_ok, map_eq_ok, and_assoc]

theorem decodeEntries_inBounds {es : Entries} {r : Report} (h : decodeEntries es = .ok r) :
    r.InBounds := by
  obtain ⟨-, -, -, -, -, -, -, hf⟩ := decodeEntries_eq_ok.1 h
  intro rules hrules
  rcases optional_eq_ok hf with hn | ⟨v, hv⟩
  · cases hn.symm.trans hrules
  · exact FormattingRules.decode_inBounds (nullable_eq_some (hrules ▸ hv))

theorem ofValue_eq_ok {v : Value} {r : Report} (h : ofValue v = .ok r) :
    ∃ es, v = .map es ∧ decodeEntries es = .ok r := by
  unfold ofValue at h
  split at h
  · rename_i es
    split at h
    · rename_i hd
      cases h
      exact ⟨es, rfl, hd⟩
    · cases h
  · cases h

theorem ofDefinition_inBounds {v : Value} {r : Report} (h : ofDefinition v = .ok r) :
    r.InBounds := by
  have hvalue : ∃ w, ofValue w = .ok r := by
    unfold ofDefinition at h
    split at h
    · unfold ofJson at h
      split at h
      · exact ⟨_, h⟩
      all_goals cases h
    · exact ⟨_, h⟩
  obtain ⟨w, hw⟩ := hvalue
  obtain ⟨es, -, hd⟩ := ofValue_eq_ok hw
  exact decodeEntries_inBounds hd

end Report
end LedgerReport
