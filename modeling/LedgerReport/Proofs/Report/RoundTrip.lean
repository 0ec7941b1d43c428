import LedgerReport.Proofs.Report.Decoded
import LedgerReport.Proofs.Traversal
/-!
A report that was read is read again from its record.

What a part of a definition was read from does not matter: under whatever name it was given, as
whatever it was written and with whatever beside it, its record is read as the same part. A field
that the record leaves out is one that is read as missing.
-/

set_option autoImplicit false

namespace LedgerReport

namespace Entries

@[simp] theorem get?_nil (name : String) : get? [] name = none := rfl

@[simp] theorem get?_cons (n name : String) (v : Value) (es : Entries) :
    get? ((.text n, v) :: es) name = if n = name then some v else get? es name := by
  by_cases h : n = name
  · simp [get?, h]
  · simp [get?, h]

@[simp] theorem get?_append (es fs : Entries) (name : String) :
    get? (es ++ fs) name = (get? es name).or (get? fs name) := by
  simp only [get?, List.find?_append]
  cases es.find? fun e => e.1 == .text name <;> rfl

@[simp] theorem get?_optionalField (n name : String) (v : Option Value) :
    get? ((optionalField n v).map fun f => (.text f.1, f.2)) name =
      if n = name then v else none := by
  cases v with
  | none => simp [optionalField]
  | some v => simp [optionalField]

end Entries

namespace Decoded
variable {α β : Type} {entries : Entries} {names : List String} {name : String}
  {read : Value → Decoded α} {write : α → Value} {v : Value} {a : α}

def ReadsBack (read : Value → Decoded α) (write : α → Value) : Prop :=
  ∀ v a, read v = .ok a → read (write a) = .ok a

theorem readsBack_text : ReadsBack text .text := by
  intro v a h
  rfl

theorem readsBack_whole : ReadsBack whole .whole := by
  intro v a h
  rfl

theorem readsBack_boolean : ReadsBack boolean .boolean := by
  intro v a h
  rfl

theorem readsBack_oneOf (all : List α) (name : α → String) :
    ReadsBack (oneOf all name) fun a => .text (name a) := by
  intro v a h
  unfold oneOf at h
  split at h
  · split at h
    · rename_i hf
      cases h
      have hs := List.find?_some hf
      rw [beq_iff_eq] at hs
      simp only [oneOf, hs, hf]
    · cases h
  · cases h

theorem ReadsBack.demand (h : ReadsBack read write) (message : String) (test : α → Bool) :
    ReadsBack (fun v => (read v).demand message test) write := by
  intro v a ha
  obtain ⟨hread, htest⟩ := demand_eq_ok.1 ha
  exact demand_eq_ok.2 ⟨h v a hread, htest⟩

theorem readsBack_atLeast (least : Int) : ReadsBack (atLeast least) .whole :=
  readsBack_whole.demand _ _

theorem readsBack_between (least most : Int) : ReadsBack (between least most) .whole := by
  intro v n h
  obtain ⟨hleast, hmost⟩ := between_eq_ok h
  have hwhole : whole (.whole n) = .ok n := rfl
  rw [between, hwhole]
  simp only [if_neg (Int.not_lt.2 hleast), if_neg (Int.not_lt.2 hmost)]

theorem ReadsBack.list (h : ReadsBack read write) :
    ReadsBack (list read) fun as => .list (as.map write) := by
  intro v as has
  obtain ⟨items, -, hitems⟩ := list_eq_ok.1 has
  refine list_eq_ok.2 ⟨_, rfl, ?_⟩
  rw [List.forall₂_map_left_iff, List.forall₂_same]
  intro a ha
  obtain ⟨v, -, hv⟩ := exists_of_forall₂ hitems.flip a ha
  exact h v a hv

theorem ReadsBack.dictionary (h : ReadsBack read write) :
    ReadsBack (dictionary read) fun pairs => .ofFields (pairs.map fun p => (p.1, write p.2)) := by
  intro v pairs hpairs
  obtain ⟨es, -, hes⟩ := dictionary_eq_ok.1 hpairs
  refine dictionary_eq_ok.2 ⟨_, rfl, ?_⟩
  rw [List.map_map, List.forall₂_map_left_iff, List.forall₂_same]
  intro p hp
  obtain ⟨e, -, -, hv⟩ := exists_of_forall₂ hes.flip p hp
  exact ⟨rfl, h e.2 p.2 hv⟩

theorem required_ok (hv : Entries.get? entries name = some v) (h : read v = .ok a) :
    required entries (name :: names) read = .ok a := by
  simp [required, entry?, hv, h, under]

theorem optional_ok {default : α} (hv : Entries.get? entries name = some v) (h : read v = .ok a) :
    optional entries [name] default read = .ok a := by
  simp [optional, entry?, hv, h, under]

theorem optional_nullable_ok {o : Option α}
    (hv : Entries.get? entries name = o.map write)
    (h : ∀ a, o = some a → read (write a) = .ok a ∧ write a ≠ .null) :
    optional entries [name] none (nullable read) = .ok o := by
  cases o with
  | none => simp [optional, entry?, hv]
  | some a =>
    obtain ⟨hread, hnull⟩ := h a rfl
    refine optional_ok hv ?_
    unfold nullable
    split
    · contradiction
    · rw [hread]
      rfl

theorem ReadsBack.required (h : ReadsBack read write)
    (ho : required entries names read = .ok a) : read (write a) = .ok a := by
  obtain ⟨v, hv⟩ := required_eq_ok ho
  exact h v a hv

theorem ReadsBack.optional (h : ReadsBack read write) {default : α}
    (hd : read (write default) = .ok default)
    (ho : optional entries names default read = .ok a) : read (write a) = .ok a := by
  rcases optional_eq_ok ho with rfl | ⟨v, hv⟩
  · exact hd
  · exact h v a hv

theorem ReadsBack.nullable (h : ReadsBack read write) (hn : ∀ a, write a ≠ .null) {o : Option α}
    (ho : Decoded.optional entries names none (Decoded.nullable read) = .ok o) :
    ∀ a, o = some a → read (write a) = .ok a ∧ write a ≠ .null := by
  rintro a rfl
  rcases optional_eq_ok ho with hnone | ⟨v, hv⟩
  · cases hnone
  · exact ⟨h v a (nullable_eq_some hv), hn a⟩

end Decoded

open Decoded

theorem readsBack_decodeFilter : ReadsBack decodeFilter .map := by
  intro v es h
  unfold decodeFilter at h ⊢
  obtain ⟨pairs, hp, rfl⟩ := map_eq_ok.1 h
  have hback : dictionary .ok (.ofFields pairs) = .ok pairs := by
    have hid : ReadsBack Decoded.ok id := fun v a _ => rfl
    simpa using hid.dictionary v pairs hp
  exact map_eq_ok.2 ⟨pairs, hback, rfl⟩

theorem Variable.readsBack : ReadsBack decode record := by
  intro v x h
  obtain ⟨es, -, hf, ha, hd⟩ := decode_eq_ok.1 h
  refine decode_eq_ok.2 ⟨_, rfl, ?_, ?_, ?_⟩
  · exact optional_ok (by simp) (readsBack_decodeFilter.optional rfl hf)
  · exact optional_ok (by simp) (readsBack_text.optional rfl ha)
  · exact optional_nullable_ok (by simp) (readsBack_text.nullable (by simp) hd)

theorem FormatRule.readsBack : ReadsBack decode record := by
  intro v r h
  obtain ⟨es, -, hd, ht, hs⟩ := decode_eq_ok.1 h
  refine decode_eq_ok.2 ⟨_, rfl, ?_, ?_, ?_⟩
  · exact optional_ok (by simp) ((readsBack_between 0 4).optional rfl hd)
  · exact optional_ok (by simp) (readsBack_boolean.optional rfl ht)
  · exact optional_nullable_ok (by simp) ((readsBack_text.demand _ _).nullable (by simp) hs)

theorem FormattingRules.readsBack : ReadsBack decode record := by
  intro v r h
  obtain ⟨es, -, hrules⟩ := decode_eq_ok.1 h
  refine decode_eq_ok.2 ⟨_, rfl, fun f => ?_⟩
  have hstandard : FormatRule.decode (standard.rule f).record = .ok (standard.rule f) := by
    cases f <;> rfl
  refine optional_ok ?_ (FormatRule.readsBack.optional hstandard (hrules f))
  cases f <;> simp [FormatName.all, FormatName.name]

theorem Content.decode_fields {type : RowType} {es fs : Entries} {c : Content}
    (h : decode type es = .ok c) (hfs : ∀ f ∈ c.fields, Entries.get? fs f.1 = some f.2) :
    decode c.type fs = .ok c := by
  cases type with
  | variableRow =>
    obtain ⟨name, -, rfl⟩ := map_eq_ok.1 h
    refine map_eq_ok.2 ⟨name, ?_, rfl⟩
    exact required_ok (hfs ("variable", .text name) (by simp [fields])) rfl
  | calculated =>
    obtain ⟨expression, -, rfl⟩ := map_eq_ok.1 h
    refine map_eq_ok.2 ⟨expression, ?_, rfl⟩
    exact required_ok (hfs ("expression", .text expression) (by simp [fields])) rfl
  | category =>
    obtain ⟨filter, hf, rfl⟩ := map_eq_ok.1 h
    refine map_eq_ok.2 ⟨filter, ?_, rfl⟩
    exact optional_ok (hfs ("filter", _) (by simp [fields]))
      (readsBack_decodeFilter.optional rfl hf)
  | subtotal =>
    obtain ⟨_, last, hfirst, -, rfl⟩ := seq_eq_ok.1 h
    obtain ⟨first, -, rfl⟩ := map_eq_ok.1 hfirst
    refine seq_eq_ok.2 ⟨_, last, map_eq_ok.2 ⟨first, ?_, rfl⟩, ?_, rfl⟩
    · exact required_ok (hfs ("from", .whole first) (by simp [fields])) rfl
    · exact required_ok (hfs ("to", .whole last) (by simp [fields])) rfl
  | spacer =>
    cases h
    rfl

theorem RowType.find?_name (t : RowType) :
    (all.find? fun u => (Value.text t.name).same (.text u.name)) = some t := by
  cases t <;> rfl

theorem Item.readsBack : ReadsBack decode record := by
  intro v i h
  obtain ⟨es, tag, type, -, -, -, h⟩ := decode_eq_ok.1 h
  obtain ⟨ho, hl, hf, hs, hi, hc⟩ := decodeAs_eq_ok.1 h
  refine decode_eq_ok.2 ⟨_, .text i.content.type.name, i.content.type, rfl, by simp,
    RowType.find?_name _, decodeAs_eq_ok.2 ⟨?_, ?_, ?_, ?_, ?_, ?_⟩⟩
  · exact required_ok (by simp) ((readsBack_atLeast 0).required ho)
  · refine optional_nullable_ok ?_ (readsBack_text.nullable (by simp) hl)
    cases i.content <;> simp [Content.fields]
  · refine optional_nullable_ok ?_ ((readsBack_oneOf _ _).nullable (by simp) hf)
    cases i.content <;> simp [Content.fields]
  · refine optional_nullable_ok ?_ ((readsBack_oneOf _ _).nullable (by simp) hs)
    cases i.content <;> simp [Content.fields]
  · exact optional_ok (by simp) ((readsBack_between 0 3).optional rfl hi)
  · refine Content.decode_fields hc ?_
    cases i.content <;> simp [Content.fields]

namespace Report

theorem decodeEntries_record {es : Entries} {r : Report} (h : decodeEntries es = .ok r) :
    ∃ fs, r.record = .map fs ∧ decodeEntries fs = .ok r := by
  obtain ⟨hi, hn, hw, hs, hd, hv, hl, hf⟩ := decodeEntries_eq_ok.1 h
  refine ⟨_, rfl, decodeEntries_eq_ok.2 ⟨?_, ?_, ?_, ?_, ?_, ?_, ?_, ?_⟩⟩
  · exact required_ok (by simp) ((readsBack_text.demand _ _).required hi)
  · exact required_ok (by simp) ((readsBack_text.demand _ _).required hn)
  · exact required_ok (by simp) ((readsBack_text.demand _ _).required hw)
  · exact required_ok (by simp) ((readsBack_oneOf _ _).required hs)
  · exact optional_nullable_ok (by simp) (readsBack_text.nullable (by simp) hd)
  · exact optional_ok (by simp) (Variable.readsBack.dictionary.optional rfl hv)
  · exact optional_ok (by simp) (Item.readsBack.list.optional rfl hl)
  · exact optional_nullable_ok (by simp) (FormattingRules.readsBack.nullable (by simp
      [FormattingRules.record, Value.ofFields]) hf)

/-- A report is defined by its record as well, and then has that record. -/
theorem ofValue_record {v : Value} {r : Report} (h : ofValue v = .ok r) :
    ofValue r.record = .ok r ∧ (ofValue r.record).map record = .ok r.record := by
  obtain ⟨es, -, hd⟩ := ofValue_eq_ok h
  obtain ⟨fs, hfs, hback⟩ := decodeEntries_record hd
  have hr : ofValue r.record = .ok r := by
    rw [hfs]
    unfold ofValue
    simp only [hback]
  exact ⟨hr, congrArg (Except.map record) hr⟩

/-- A definition with other names, numbers as texts, fields that are null and some that nobody
reads. -/
def casual : Value := .ofFields [
  ("report_id", .text "pl"), ("name", .text "Result"), ("version", .text "1.0.0"),
  ("statement_type", .text "income"), ("description", .null), ("owner", .text "finance"),
  ("variables", .ofFields [("revenue", .ofFields [("filter", .ofFields [("code1", .null)])])]),
  ("layout", .list [
    .ofFields [("type", .text "variable"), ("order", .text " 10 "), ("variable", .text "revenue"),
      ("format", .null)],
    .ofFields [("type", .text "subtotal"), ("order", .whole 20), ("from_", .text "10"),
      ("to", .whole 10), ("indent", .boolean true)]]),
  ("formatting", .ofFields [("percent", .ofFields [("thousands", .text "yes")])])]

def formal : Report where
  id := "pl"
  name := "Result"
  version := "1.0.0"
  statement := .income
  description := none
  vars := [("revenue", ⟨[(.text "code1", .null)], "sum", none⟩)]
  layout := [⟨10, none, none, none, 0, .ofVariable "revenue"⟩,
    ⟨20, none, none, none, 1, .subtotal 10 10⟩]
  formatting := some { FormattingRules.standard with percent := ⟨0, true, none⟩ }

theorem ofValue_record_casual : ofValue casual = .ok formal ∧
    ofValue formal.record = .ok formal ∧
    (ofValue formal.record).map record = .ok formal.record := by
  have hcasual : ofValue casual = .ok formal := by with_unfolding_all rfl
  exact ⟨hcasual, ofValue_record hcasual⟩

end Report
end LedgerReport
