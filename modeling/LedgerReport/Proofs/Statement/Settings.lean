import Mathlib
import LedgerReport.Proofs.Numeral.Spelling
import LedgerReport.Proofs.Statement.Display
import LedgerReport.Statement.Engine
/-!
Settings, the problems that are listed for them, and the engine that they make.

An engine is made if the text for its policy names one, in any case and with blanks around it, and
if the places and the symbol of its display are within their bounds. The list of problems asks the
same of places and symbol, but takes the text for the policy as it is written. So settings whose
policy is named loosely can make an engine although a problem is listed.
-/

set_option autoImplicit false

namespace LedgerReport

theorem Text.toLower_of_isBlank {c : Char} (h : Text.isBlank c = true) : c.toLower = c := by
  have hcapitals : ∀ r ∈ Text.blankRanges, r.2 < 65 ∨ 90 < r.1 := by decide
  obtain ⟨r, hr, hfrom, hto⟩ := (Text.inRanges_iff Text.blankRanges c.toNat).1 h
  have hother := hcapitals r hr
  refine dif_neg ?_
  rintro ⟨hlow, hhigh⟩
  have hrange : 65 ≤ c.toNat ∧ c.toNat ≤ 90 := ⟨hlow, hhigh⟩
  omega

namespace Policy

def word : Policy → String
  | takePart => "partial"
  | strict => "strict"

/-- Whether a text names a policy: by its word in any case, with blanks around it. -/
def Names (p : Policy) (s : String) : Prop :=
  ∃ before cs after, s.toList = before ++ cs ++ after ∧ cs.map Char.toLower = p.word.toList ∧
    (∀ c ∈ before, Text.isBlank c = true) ∧ ∀ c ∈ after, Text.isBlank c = true

theorem names_word (p : Policy) : p.Names p.word := by
  refine ⟨[], p.word.toList, [], by simp, ?_, nofun, nofun⟩
  cases p <;> decide

theorem ofText?_eq_some_iff_lower {s : String} {p : Policy} :
    ofText? s = some p ↔ (Text.trimChars s.toList).map Char.toLower = p.word.toList := by
  have hlower : (Text.lower (Text.trim s)).toList =
      (Text.trimChars s.toList).map Char.toLower := by
    rw [Text.lower, Text.trim, String.toList_map, String.toList_ofList]
  rw [← hlower, String.toList_inj, ofText?]
  constructor
  · intro h
    split at h
    · next hword => cases h; exact hword
    · next hword => cases h; exact hword
    · cases h
  · intro h
    rw [h]
    cases p <;> rfl

theorem ofText?_eq_some_iff {s : String} {p : Policy} : ofText? s = some p ↔ p.Names s := by
  have hletters : ∀ p : Policy, p.word.toList ≠ [] ∧ p.word.toList.any Text.isBlank = false := by
    intro p
    cases p <;> decide
  rw [ofText?_eq_some_iff_lower]
  constructor
  · intro h
    obtain ⟨before, after, hs, hb, ha⟩ := Text.exists_strip Text.isBlank s.toList
    exact ⟨before, _, after, hs, h, hb, ha⟩
  · rintro ⟨before, cs, after, hs, h, hb, ha⟩
    have hcs : ∀ c ∈ cs, Text.isBlank c = false := by
      intro c hc
      rw [Bool.eq_false_iff]
      intro hblank
      have hmem : c.toLower ∈ p.word.toList := h ▸ List.mem_map_of_mem hc
      rw [Text.toLower_of_isBlank hblank] at hmem
      exact List.any_eq_false.1 (hletters p).2 c hmem hblank
    have hne : cs ≠ [] := by
      rintro rfl
      exact (hletters p).1 h.symm
    rwa [hs, Text.trimChars, Text.strip_between hb hcs ha hne]

end Policy

inductive Requirement where
  | workers
  | windowMonths
  | windowPolicy
  | currencyDecimals
  | percentDecimals
  | currencySymbol
  deriving DecidableEq

namespace Requirement

def ofDisplay : List Requirement := [currencyDecimals, percentDecimals, currencySymbol]

def ofEngine : List Requirement := windowPolicy :: ofDisplay

def problem : Requirement → String
  | workers => "REPORT_ENGINE_MAX_WORKERS must be at least 1"
  | windowMonths => "ROLLING_WINDOW_MONTHS must be at least 1"
  | windowPolicy => "ROLLING_WINDOW_POLICY must be 'partial' or 'strict'"
  | currencyDecimals => "REPORT_CURRENCY_DECIMALS must be between 0 and 4"
  | percentDecimals => "REPORT_PERCENT_DECIMALS must be between 0 and 4"
  | currencySymbol => "REPORT_CURRENCY_SYMBOL must be at most 5 characters"

def Met (s : Settings) : Requirement → Prop
  | workers => 1 ≤ s.workers
  | windowMonths => 1 ≤ s.windowMonths
  | windowPolicy => ∃ p : Policy, s.windowPolicy = p.word
  | currencyDecimals => 0 ≤ s.currencyDecimals ∧ s.currencyDecimals ≤ 4
  | percentDecimals => 0 ≤ s.percentDecimals ∧ s.percentDecimals ≤ 4
  | currencySymbol => s.currencySymbol.length ≤ 5

theorem mem_problems_iff {s : Settings} {r : Requirement} :
    r.problem ∈ s.problems ↔ ¬ r.Met s := by
  have hword : (∃ p : Policy, s.windowPolicy = p.word) ↔
      s.windowPolicy = "partial" ∨ s.windowPolicy = "strict" := by
    constructor
    · rintro ⟨p, hp⟩
      cases p
      · exact .inl hp
      · exact .inr hp
    · rintro (hp | hp)
      · exact ⟨.takePart, hp⟩
      · exact ⟨.strict, hp⟩
  cases r <;> simp [Settings.problems, problem, Met, hword]

theorem met_of_problems_eq_nil {s : Settings} (h : s.problems = []) (r : Requirement) :
    r.Met s := by
  refine not_not.1 fun hr => ?_
  rw [← mem_problems_iff, h] at hr
  cases hr

end Requirement

namespace Display

theorem rulesOf_error {symbol : String} {c p : Int}
    (h : ¬ ((0 ≤ c ∧ c ≤ 4) ∧ (0 ≤ p ∧ p ≤ 4) ∧ symbol.length ≤ 5)) :
    rulesOf symbol c p = .error .invalidRules := by
  refine if_neg ?_
  simpa [and_assoc] using h

end Display

namespace Settings

/-- The text for the policy names one, but not as the word for it is written. -/
def NamesLoosely (s : Settings) : Prop :=
  (∃ p : Policy, p.Names s.windowPolicy) ∧ ∀ p : Policy, s.windowPolicy ≠ p.word

end Settings

namespace Engine
variable {s : Settings}

theorem ofSettings_of_named {p : Policy} (h : p.Names s.windowPolicy) :
    ofSettings s = (Display.rulesOf s.currencySymbol s.currencyDecimals s.percentDecimals).map
      fun rules => ⟨⟨max 1 s.workers, p⟩, rules⟩ := by
  have hpolicy : Policy.read (.text s.windowPolicy) = .ok p := by
    rw [Policy.read, Value.display, Policy.ofText?_eq_some_iff.2 h]
  rw [ofSettings, hpolicy]
  cases Display.rulesOf s.currencySymbol s.currencyDecimals s.percentDecimals <;> rfl

theorem ofSettings_of_unnamed (h : ∀ p : Policy, ¬ p.Names s.windowPolicy) :
    ofSettings s = .error (.invalidSelector (.policy (.text s.windowPolicy))) := by
  have hnone : Policy.ofText? s.windowPolicy = none := by
    rw [Option.eq_none_iff_forall_ne_some]
    exact fun p hp => h p (Policy.ofText?_eq_some_iff.1 hp)
  rw [ofSettings, Policy.read, Value.display, hnone]
  rfl

theorem ofSettings_ok_iff :
    (∃ e, ofSettings s = .ok e) ↔
      (∃ p : Policy, p.Names s.windowPolicy) ∧ ∀ r ∈ Requirement.ofDisplay, r.Met s := by
  have hmet : (∀ r ∈ Requirement.ofDisplay, r.Met s) ↔
      (0 ≤ s.currencyDecimals ∧ s.currencyDecimals ≤ 4) ∧
        (0 ≤ s.percentDecimals ∧ s.percentDecimals ≤ 4) ∧ s.currencySymbol.length ≤ 5 := by
    simp [Requirement.ofDisplay, Requirement.Met]
  rw [hmet]
  by_cases hp : ∃ p : Policy, p.Names s.windowPolicy
  · obtain ⟨p, hp⟩ := hp
    rw [ofSettings_of_named hp]
    constructor
    · rintro ⟨e, he⟩
      refine ⟨⟨p, hp⟩, Decidable.byContradiction fun hb => ?_⟩
      rw [Display.rulesOf_error hb] at he
      cases he
    · rintro ⟨-, hc, hd, hs⟩
      obtain ⟨rules, hrules, -⟩ :=
        Display.rulesOf_ok (by simpa using hc) (by simpa using hd) hs
      rw [hrules]
      exact ⟨_, rfl⟩
  · have hunnamed : ∀ p : Policy, ¬ p.Names s.windowPolicy := not_exists.1 hp
    rw [ofSettings_of_unnamed hunnamed]
    constructor
    · rintro ⟨e, he⟩
      cases he
    · rintro ⟨hnamed, -⟩
      exact absurd hnamed hp

theorem ofSettings_error_iff :
    (∃ error, ofSettings s = .error error) ↔
      (∀ p : Policy, ¬ p.Names s.windowPolicy) ∨
        ∃ r ∈ Requirement.ofDisplay, r.problem ∈ s.problems := by
  have hnot : (∃ error, ofSettings s = .error error) ↔ ¬ ∃ e, ofSettings s = .ok e := by
    cases ofSettings s <;> simp
  simp only [hnot, ofSettings_ok_iff, Requirement.mem_problems_iff, not_and_or, not_exists,
    not_forall, exists_prop]

/-- An engine is refused exactly where the settings for the policy and the display list a problem,
unless the policy is named loosely and the display has no problem: then a problem is listed and the
engine is made. -/
theorem ofSettings_error_iff_listed (s : Settings) :
    (((∃ error, ofSettings s = .error error) ↔
        ∃ r ∈ Requirement.ofEngine, r.problem ∈ s.problems) ↔
      ¬ (s.NamesLoosely ∧ ∀ r ∈ Requirement.ofDisplay, r.problem ∉ s.problems)) ∧
    ((∃ error, ofSettings s = .error error) ↔
      (∀ p : Policy, ¬ p.Names s.windowPolicy) ∨
        ∃ r ∈ Requirement.ofDisplay, r.problem ∈ s.problems) ∧
    (s.problems = [] → ∃ e, ofSettings s = .ok e) := by
  have hlisted : (∃ r ∈ Requirement.ofEngine, r.problem ∈ s.problems) ↔
      (∀ p : Policy, s.windowPolicy ≠ p.word) ∨
        ∃ r ∈ Requirement.ofDisplay, r.problem ∈ s.problems := by
    rw [Requirement.ofEngine, List.exists_mem_cons_iff, Requirement.mem_problems_iff]
    exact or_congr not_exists .rfl
  have hword : (∀ p : Policy, ¬ p.Names s.windowPolicy) → ∀ p : Policy, s.windowPolicy ≠ p.word :=
    fun h p hp => h p (hp ▸ p.names_word)
  have hnone : (∀ r ∈ Requirement.ofDisplay, r.problem ∉ s.problems) ↔
      ¬ ∃ r ∈ Requirement.ofDisplay, r.problem ∈ s.problems := by
    simp only [not_exists, not_and]
  refine ⟨?_, ofSettings_error_iff, fun hs => ?_⟩
  · rw [ofSettings_error_iff, hlisted, Settings.NamesLoosely, hnone]
    by_cases hd : ∃ r ∈ Requirement.ofDisplay, r.problem ∈ s.problems
    · simp only [hd, or_true, not_true_eq_false, and_false, not_false_eq_true]
    · simp only [hd, or_false, not_false_eq_true, and_true]
      constructor
      · rintro hiff ⟨⟨p, hp⟩, hw⟩
        exact hiff.2 hw p hp
      · intro hloose
        exact ⟨hword, fun hw p hp => hloose ⟨⟨p, hp⟩, hw⟩⟩
  · obtain ⟨p, hp⟩ := Requirement.met_of_problems_eq_nil hs .windowPolicy
    exact ofSettings_ok_iff.2
      ⟨⟨p, hp ▸ p.names_word⟩, fun r _ => Requirement.met_of_problems_eq_nil hs r⟩

def capitalised : Settings := ⟨1, 12, "Strict", "€", 0, 1, none, "INFO"⟩

theorem ofSettings_capitalised :
    Settings.ofEnvironment [("ROLLING_WINDOW_POLICY", "Strict")] = .ok capitalised ∧
    ofSettings capitalised = .ok ⟨⟨1, .strict⟩, .standard⟩ ∧
    ¬ ((∃ error, ofSettings capitalised = .error error) ↔
      ∃ r ∈ Requirement.ofEngine, r.problem ∈ capitalised.problems) := by
  have hmade : ofSettings capitalised = .ok ⟨⟨1, .strict⟩, .standard⟩ := by cbv
  have hlisted : Requirement.windowPolicy.problem ∈ capitalised.problems := by decide
  refine ⟨by cbv, hmade, fun hiff => ?_⟩
  obtain ⟨error, herror⟩ := hiff.2 ⟨.windowPolicy, List.mem_cons_self, hlisted⟩
  rw [hmade] at herror
  cases herror

end Engine
end LedgerReport
