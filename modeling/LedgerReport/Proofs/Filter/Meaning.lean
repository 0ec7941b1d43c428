import Mathlib.Data.String.Basic
import LedgerReport.Proofs.Filter
/-!
What a filter means: which movements it keeps, read off its specification alone.

A specification says of a field that it has a value, that it has one of several, or that it is there
and passes every test of a map. The filter that is read from a specification keeps the movements of
which all of this is so; where there is none, the problems of the specification are told.
-/

set_option autoImplicit false

namespace LedgerReport
open Pattern

/-- Whether the fields of a movement hold texts, as far as they are given. -/
def Movement.HasTexts (m : Movement) : Prop := ∀ f, m.get f = .null ∨ ∃ s, m.get f = .text s

theorem Value.same_of_text {value v : Value} (h : value = .null ∨ ∃ s, value = .text s) :
    value.same v = true ↔ value = v := by
  rcases h with rfl | ⟨s, rfl⟩
  · cases v <;> simp [same]
  · cases v <;> simp [same]

theorem Value.same_text {value v : Value} (h : value = .null ∨ ∃ s, value = .text s) :
    v.same value = true ↔ v = value := by
  rcases h with rfl | ⟨s, rfl⟩
  · cases v <;> simp [same, number?]
  · cases v <;> simp [same, number?]

theorem Field.name_injective {a b : Field} (h : a.name = b.name) : a = b :=
  Option.some.inj ((ofName?_name a).symm.trans (h ▸ ofName?_name b))

namespace Bound

theorem name_injective {a b : Bound} (h : a.name = b.name) : a = b := by
  cases a <;> cases b <;> first | rfl | exact absurd h (by decide)

def DemandsOfNumbers (value limit : Number) : Bound → Prop
  | atLeast => value.order limit = some .gt ∨ value.order limit = some .eq
  | atMost => value.order limit = some .lt ∨ value.order limit = some .eq
  | above => value.order limit = some .gt
  | below => value.order limit = some .lt

def DemandsOfTexts (value limit : String) : Bound → Prop
  | atLeast => limit ≤ value
  | atMost => value ≤ limit
  | above => limit < value
  | below => value < limit

/-- What a bound demands of a value: numbers are compared by size if both are, else the texts. -/
def Demands (b : Bound) (value limit : Value) : Prop :=
  match value.number?, limit.number? with
  | some m, some n => b.DemandsOfNumbers m n
  | _, _ => b.DemandsOfTexts value.display limit.display

theorem admits_numbers_iff {b : Bound} {m n : Number} :
    (∃ o, m.order n = some o ∧ b.admits o = true) ↔ b.DemandsOfNumbers m n := by
  cases ho : m.order n with
  | none => cases b <;> simp [DemandsOfNumbers, ho]
  | some o => cases b <;> cases o <;> simp [DemandsOfNumbers, admits, ho]

theorem admits_texts_iff {b : Bound} {s t : String} :
    b.admits (compare s t) = true ↔ b.DemandsOfTexts s t := by
  cases b with
  | atLeast => simp only [admits, DemandsOfTexts, bne_iff_ne, ne_eq, compare_ge_iff_ge]
  | atMost => simp only [admits, DemandsOfTexts, bne_iff_ne, ne_eq, compare_le_iff_le]
  | above => simp only [admits, DemandsOfTexts, beq_iff_eq, compare_gt_iff_gt]
  | below => simp only [admits, DemandsOfTexts, beq_iff_eq, compare_lt_iff_lt]

theorem holds_within_iff {b : Bound} {value limit : Value} :
    (Test.within b limit).holds value = true ↔ b.Demands value limit := by
  have hspread : (Test.within b limit).holds value = true ↔
      ∃ o, Test.order value limit = some o ∧ b.admits o = true := by
    rw [Test.holds]
    cases Test.order value limit <;> simp
  rw [hspread, Demands, Test.order]
  cases value.number? with
  | none => simpa using admits_texts_iff
  | some m =>
    cases limit.number? with
    | none => simpa using admits_texts_iff
    | some n => exact admits_numbers_iff

end Bound

namespace TextTest

theorem name_injective {a b : TextTest} (h : a.name = b.name) : a = b := by
  cases a <;> cases b <;> first | rfl | exact absurd h (by decide)

theorem name_ne (t : TextTest) (b : Bound) : t.name ≠ b.name := by
  cases t <;> cases b <;> decide

def Finds (sought text : String) : TextTest → Prop
  | contains => sought.toList <:+: text.toList
  | startsWith => sought.toList <+: text.toList
  | endsWith => sought.toList <:+ text.toList
  | regex => ∃ r, Regex.ofText sought = .ok r ∧ r.foundIn text = true

end TextTest

theorem Test.hasInfix_iff {part cs : List Char} : hasInfix part cs = true ↔ part <:+: cs := by
  induction cs with
  | nil => simp [hasInfix, List.infix_nil]
  | cons c cs ih => simp [hasInfix, List.infix_cons_iff, ih]

namespace Filter

def Meets (value : Value) (key : Key) (argument : Value) : Prop :=
  (∃ b : Bound, key = .text b.name ∧ b.Demands value argument) ∨
    ∃ (t : TextTest) (s : String), key = .text t.name ∧ argument = .text s ∧
      t.Finds s value.display

def Says (value : Value) : Value → Prop
  | .list options => value ∈ options
  | .map tests => value ≠ .null ∧ ∀ t ∈ tests, Meets value t.1 t.2
  | literal => value = literal

/-- What a specification says of a movement; without entries it says nothing. -/
def Means (entries : Entries) (m : Movement) : Prop :=
  ∀ e ∈ entries, ∃ f : Field, e.1 = .text f.name ∧ Says (m.get f) e.2

@[simp] theorem means_nil {m : Movement} : Means [] m := by simp [Means]

theorem means_cons_iff {f : Field} {v : Value} {entries : Entries} {m : Movement} :
    Means ((.text f.name, v) :: entries) m ↔ Says (m.get f) v ∧ Means entries m := by
  have hfield : (∃ g : Field, Key.text f.name = .text g.name ∧ Says (m.get g) v) ↔
      Says (m.get f) v := by
    constructor
    · rintro ⟨g, hg, h⟩
      exact Field.name_injective (Key.text.inj hg) ▸ h
    · exact fun h => ⟨f, rfl, h⟩
  simp only [Means, List.forall_mem_cons, hfield]

theorem meets_bound_iff {b : Bound} {value argument : Value} :
    Meets value (.text b.name) argument ↔ b.Demands value argument := by
  constructor
  · rintro (⟨c, hc, h⟩ | ⟨t, s, ht, -⟩)
    · exact Bound.name_injective (Key.text.inj hc) ▸ h
    · exact absurd (Key.text.inj ht).symm (t.name_ne b)
  · exact fun h => .inl ⟨b, rfl, h⟩

theorem meets_text_iff {t : TextTest} {value : Value} {s : String} :
    Meets value (.text t.name) (.text s) ↔ t.Finds s value.display := by
  constructor
  · rintro (⟨b, hb, -⟩ | ⟨u, r, hu, hr, h⟩)
    · exact absurd (Key.text.inj hb) (t.name_ne b)
    · cases hr
      exact TextTest.name_injective (Key.text.inj hu) ▸ h
  · exact fun h => .inr ⟨t, s, rfl, rfl, h⟩

theorem test_bound (b : Bound) (argument : Value) :
    test (.text b.name) argument = .ok (.within b argument) := by
  cases b <;> rfl

theorem key_of_test {key : Key} {argument : Value} {t : Test} (h : test key argument = .ok t) :
    (∃ b : Bound, key = .text b.name) ∨
      ∃ (k : TextTest) (s : String), key = .text k.name ∧ argument = .text s := by
  unfold test at h
  cases hb : Bound.all.find? fun b => key == .text b.name with
  | some b => exact .inl ⟨b, by simpa using List.find?_some hb⟩
  | none =>
    simp only [hb] at h
    cases hk : TextTest.all.find? fun k => key == .text k.name with
    | none => simp only [hk] at h; cases h
    | some k =>
      have hkey : key = .text k.name := by simpa using List.find?_some hk
      cases argument with
      | text s => exact .inr ⟨k, s, hkey, rfl⟩
      | _ => cases k <;> simp only [hk] at h <;> cases h

/-- A test that is read holds of a value exactly if the value meets what its key says. -/
theorem test_holds_iff {key : Key} {argument value : Value} {t : Test}
    (h : test key argument = .ok t) : t.holds value = true ↔ Meets value key argument := by
  rcases key_of_test h with ⟨b, rfl⟩ | ⟨k, s, rfl, rfl⟩
  · cases (test_bound b argument).symm.trans h
    rw [meets_bound_iff, Bound.holds_within_iff]
  · rw [meets_text_iff]
    cases k with
    | contains =>
      cases h
      exact Test.hasInfix_iff
    | startsWith =>
      cases h
      exact List.isPrefixOf_iff_prefix
    | endsWith =>
      cases h
      exact List.isSuffixOf_iff_suffix
    | regex =>
      change ((Regex.ofText s).map Test.matching).mapError (patternError s) = .ok t at h
      cases hr : Regex.ofText s with
      | error fault => simp [hr, Except.map, Except.mapError] at h
      | ok r =>
        simp only [hr, Except.map, Except.mapError, Except.ok.injEq] at h
        subst h
        simp [TextTest.Finds, Test.holds, hr]

theorem condition_holds_iff {spec value : Value} {c : Condition}
    (hv : value = .null ∨ ∃ s, value = .text s) (h : condition spec = .ok c) :
    c.holds value = true ↔ Says value spec := by
  cases spec with
  | list options =>
    cases h
    simp [Condition.holds, Says, Value.same_text hv]
  | map tests =>
    cases hts : tests.mapM fun t => test t.1 t.2 with
    | error e => simp [condition, hts, Except.map] at h
    | ok ts =>
      simp only [condition, hts, Except.map, Except.ok.injEq] at h
      subst h
      have hall : (∀ t ∈ ts, t.holds value = true) ↔ ∀ t ∈ tests, Meets value t.1 t.2 :=
        forall_iff_of_mapM (fun _ _ => test_holds_iff) hts
      rcases hv with rfl | ⟨s, rfl⟩
      · simp [Condition.holds, Says]
      · simp [Condition.holds, Says, hall]
  | _ =>
    cases h
    exact Value.same_of_text hv

theorem fieldOf?_eq_some_iff {key : Key} {f : Field} :
    fieldOf? key = some f ↔ key = .text f.name := by
  constructor
  · intro h
    cases key with
    | text s =>
      have hs : f.name = s := by simpa using List.find?_some h
      rw [hs]
    | _ => cases h
  · rintro rfl
    exact Field.ofName?_name f

theorem entry_holds_iff {e : Key × Value} {c : Field × Condition} {m : Movement} (hm : m.HasTexts)
    (h : (match fieldOf? e.1 with
      | some f => (condition e.2).map fun c => (f, c)
      | none => .error Error.wrongType) = .ok c) :
    c.2.holds (m.get c.1) = true ↔ ∃ f : Field, e.1 = .text f.name ∧ Says (m.get f) e.2 := by
  cases hf : fieldOf? e.1 with
  | none => simp [hf] at h
  | some f =>
    cases hc : condition e.2 with
    | error _ => simp [hf, hc, Except.map] at h
    | ok d =>
      simp only [hf, hc, Except.map, Except.ok.injEq] at h
      subst h
      rw [condition_holds_iff (hm f) hc]
      constructor
      · exact fun hs => ⟨f, fieldOf?_eq_some_iff.1 hf, hs⟩
      · rintro ⟨g, hg, hs⟩
        cases (fieldOf?_eq_some_iff.2 hg).symm.trans hf
        exact hs

theorem conditions_hold_iff {entries : Entries} {filter : Filter} {m : Movement} (hm : m.HasTexts)
    (h : conditions entries = .ok filter) : filter.holds m = true ↔ Means entries m := by
  simp only [Filter.holds, List.all_eq_true]
  exact forall_iff_of_mapM (fun _ _ => entry_holds_iff hm) h

def specification : Option Entries → Value
  | some entries => .map entries
  | none => .null

theorem problems_specification (spec : Option Entries) :
    problems (specification spec) = problems (.map (spec.getD [])) := by
  cases spec <;> rfl

theorem read_specification {spec : Option Entries} (h : problems (.map (spec.getD [])) = .ok []) :
    read (specification spec) = conditions (spec.getD []) := by
  cases spec with
  | none => rfl
  | some entries => exact read_eq_conditions h

theorem read_refused {spec : Option Entries} {found : List String}
    (h : problems (.map (spec.getD [])) = .ok found) (hne : found ≠ []) :
    read (specification spec) = .error (.invalidFilter found (specification spec)) := by
  cases spec with
  | none =>
    cases h
    exact absurd rfl hne
  | some entries =>
    cases entries with
    | nil =>
      cases h
      exact absurd rfl hne
    | cons e r =>
      have hempty : found.isEmpty = false := by simpa using hne
      change problems (.map (e :: r)) = _ at h
      simp only [read, specification, Value.isGiven, List.isEmpty_cons, Bool.not_false,
        Bool.not_true, Bool.false_eq_true, if_false, h, hempty, if_true, shown, bind, Except.bind]

/-- Unless one of its patterns stops that, a filter is refused with the problems of its
specification if there are any; if there are none it is read, and keeps the movements that the
specification means. Without a specification, or without entries in it, it keeps all. -/
theorem refused_or_meant (spec : Option Entries)
    (h : ∀ p ∈ patterns (spec.getD []), patternStop? p = none) :
    ∃ found, problems (specification spec) = .ok found ∧
      (found ≠ [] →
        read (specification spec) = .error (.invalidFilter found (specification spec))) ∧
      (found = [] → ∃ filter, read (specification spec) = .ok filter ∧
        (∀ m : Movement, m.HasTexts → (filter.holds m = true ↔ Means (spec.getD []) m)) ∧
        (spec.getD [] = [] → ∀ m, filter.holds m = true)) := by
  have hstop : errorOf? (problems (.map (spec.getD []))) = none := by
    rw [errorOf?_problems, List.findSome?_eq_none_iff]
    exact h
  rw [problems_specification]
  cases hp : problems (.map (spec.getD [])) with
  | error e => simp [hp, errorOf?] at hstop
  | ok found =>
    refine ⟨found, rfl, read_refused hp, ?_⟩
    rintro rfl
    obtain ⟨filter, hf⟩ := conditions_ok hp
    refine ⟨filter, (read_specification hp).trans hf, fun m hm => conditions_hold_iff hm hf, ?_⟩
    intro hnone m
    rw [hnone] at hf
    cases hf
    rfl

/-- Income by a range of codes, by name and by statement; a bound that is a number. -/
def income : Entries := [
  (.text Field.code1.name, .map [
    (.text Bound.atLeast.name, .text "700"), (.text Bound.below.name, .number (.whole 71))]),
  (.text Field.name1.name, .map [
    (.text TextTest.regex.name, .text "^Om.*t$"), (.text TextTest.contains.name, .text "ze")]),
  (.text Field.statementType.name, .list [.text "Winst & verlies", .boolean true]),
  (.text Field.code2.name, .text "70")]

def earned (code name : String) : Movement := .ofFields none 2024 1 fun
  | .code1 => .text code
  | .name1 => .text name
  | .statementType => .text "Winst & verlies"
  | .code2 => .text "70"
  | _ => .null

theorem earned_hasTexts (code name : String) : (earned code name).HasTexts := by
  intro f
  rw [earned, Movement.get_ofFields]
  cases f <;> simp

theorem income_means_earned {code name : String} : Means income (earned code name) ↔
    ("700" ≤ code ∧ code < "71") ∧
      (∃ r, Regex.ofText "^Om.*t$" = .ok r ∧ r.foundIn name = true) ∧
        "ze".toList <:+: name.toList := by
  have hbound : "71" = (Value.number (.whole 71)).display := by decide
  simp only [income, means_cons_iff, means_nil, earned, Movement.get_ofFields, Says,
    List.forall_mem_cons, meets_bound_iff, meets_text_iff, TextTest.Finds, Value.display]
  simp [Bound.Demands, Bound.DemandsOfTexts, Value.number?, Value.display, hbound]

theorem refused_or_meant_income : ∃ filter, read (.map income) = .ok filter ∧
    filter.holds (earned "7001" "Omzet") = true ∧
    filter.holds (earned "7001" "Omzetten") = false ∧
    filter.holds (earned "71" "Omzet") = false := by
  have hpatterns : ∀ p ∈ patterns income, patternStop? p = none := by decide +kernel
  obtain ⟨found, hfound, -, hread⟩ := refused_or_meant (some income) hpatterns
  have hnone : (problems (specification (some income))).toOption = some [] := by decide +kernel
  rw [hfound] at hnone
  cases hnone
  obtain ⟨filter, hf, hmeans, -⟩ := hread rfl
  have hsearch : ((Regex.ofText "^Om.*t$").map fun r =>
      (r.foundIn "Omzet", r.foundIn "Omzetten")) = .ok (true, false) := by decide +kernel
  cases hr : Regex.ofText "^Om.*t$" with
  | error fault => simp [hr, Except.map] at hsearch
  | ok r =>
    simp only [hr, Except.map, Except.ok.injEq, Prod.mk.injEq] at hsearch
    have hholds : ∀ code name, filter.holds (earned code name) = true ↔
        ("700" ≤ code ∧ code < "71") ∧ r.foundIn name = true ∧ "ze".toList <:+: name.toList := by
      intro code name
      refine (hmeans _ (earned_hasTexts code name)).trans (income_means_earned.trans ?_)
      simp [hr]
    refine ⟨filter, hf, (hholds _ _).2 ⟨by decide, hsearch.1, by decide⟩, ?_, ?_⟩
    · rw [Bool.eq_false_iff, ne_eq, hholds]
      rintro ⟨-, hfound, -⟩
      exact absurd (hfound.symm.trans hsearch.2) (by decide)
    · rw [Bool.eq_false_iff, ne_eq, hholds]
      rintro ⟨⟨-, hbelow⟩, -⟩
      exact absurd hbelow (by decide)

end Filter
end LedgerReport
