import LedgerReport.Filter
import LedgerReport.Proofs.Traversal
set_option autoImplicit false

namespace LedgerReport.Filter

theorem test_ok {field : String} {key : Key} {argument : Value}
    (h : testProblems field key argument = .ok []) : ∃ t, test key argument = .ok t := by
  unfold testProblems at h
  unfold test
  simp only [← List.isSome_find?] at h
  cases hb : Bound.all.find? fun b => key == .text b.name with
  | some b => exact ⟨_, rfl⟩
  | none =>
    simp only [hb, Option.isSome_none, Bool.false_eq_true, if_false] at h
    cases ht : TextTest.all.find? fun t => key == .text t.name with
    | none => simp only [ht, Option.isSome_none, Bool.false_eq_true, if_false] at h; cases h
    | some t =>
      have hkey : key = .text t.name := by simpa using List.find?_some ht
      simp only [ht, Option.isSome_some, if_true] at h
      cases argument with
      | text s =>
        cases t with
        | regex =>
          simp only [hkey, if_true] at h
          cases hr : Pattern.Regex.ofText s with
          | ok regex => exact ⟨.matching regex, by simp only [hr]; rfl⟩
          | error fault => cases fault <;> simp [hr] at h
        | contains => exact ⟨_, rfl⟩
        | startsWith => exact ⟨_, rfl⟩
        | endsWith => exact ⟨_, rfl⟩
      | _ => cases h

theorem condition_ok {field : String} {v : Value} (h : conditionProblems field v = .ok []) :
    ∃ c, condition v = .ok c := by
  cases v with
  | map tests =>
    have hall : ∀ t ∈ tests, ∃ u, test t.1 t.2 = .ok u := by
      intro t ht
      cases tests with
      | nil => simp at ht
      | cons first rest =>
        obtain ⟨problems, hp, hn⟩ := bind_eq_ok.1 h
        exact test_ok (eq_nil_of_mapM_flatten hp (Except.ok.inj hn) t ht)
    obtain ⟨us, hus⟩ := mapM_ok hall
    exact ⟨.passes us, by simp only [condition, hus]; rfl⟩
  | _ => exact ⟨_, rfl⟩

theorem conditions_ok {entries : Entries} (h : entryProblems entries = .ok []) :
    ∃ f, conditions entries = .ok f := by
  obtain ⟨problems, hp, hn⟩ := bind_eq_ok.1 h
  have hnone := eq_nil_of_mapM_flatten hp (Except.ok.inj hn)
  refine mapM_ok fun e he => ?_
  have hentry := hnone e he
  cases hf : fieldOf? e.1 with
  | none => simp [hf] at hentry
  | some field =>
    simp only [hf] at hentry
    obtain ⟨c, hc⟩ := condition_ok hentry
    exact ⟨(field, c), by simp only [hc]; rfl⟩

theorem read_eq_conditions {entries : Entries} (h : problems (.map entries) = .ok []) :
    read (.map entries) = conditions entries := by
  cases entries with
  | nil => rfl
  | cons e r =>
    change (problems (.map (e :: r)) >>= fun ps => if !ps.isEmpty then _ else _) = _
    rw [h]
    rfl

theorem read_ok {entries : Entries} (h : problems (.map entries) = .ok []) :
    ∃ f, read (.map entries) = .ok f := by
  rw [read_eq_conditions h]
  exact conditions_ok h

def testPatterns (key : Key) : Value → List String
  | .text pattern => if key = .text TextTest.regex.name then [pattern] else []
  | _ => []

def conditionPatterns : Value → List String
  | .map tests => tests.flatMap fun t => testPatterns t.1 t.2
  | _ => []

/-- The patterns in the entries of a specification, from the first to the last. -/
def patterns (entries : Entries) : List String :=
  entries.flatMap fun e =>
    match fieldOf? e.1 with
    | some _ => conditionPatterns e.2
    | none => []

/-- The error that a pattern stops the collecting of problems with: its reading fails, and not for
a fault of its text. -/
def patternStop? (pattern : String) : Option Error :=
  match Pattern.Regex.ofText pattern with
  | .ok _ => none
  | .error (.bad ..) => none
  | .error fault => some (patternError pattern fault)

theorem errorOf?_testProblems (field : String) (key : Key) (argument : Value) :
    errorOf? (testProblems field key argument) =
      (testPatterns key argument).findSome? patternStop? := by
  by_cases hkey : key = .text TextTest.regex.name
  · subst hkey
    cases argument with
    | text pattern =>
      have hp : testProblems field (.text TextTest.regex.name) (.text pattern) =
          match Pattern.Regex.ofText pattern with
          | .ok _ => .ok []
          | .error (.bad reason position) =>
            .ok ["Invalid regex for " ++ field ++ ": " ++
              (Pattern.Fault.bad reason position).message pattern]
          | .error fault => .error (patternError pattern fault) := rfl
      have hs : (testPatterns (.text TextTest.regex.name) (.text pattern)).findSome? patternStop? =
          patternStop? pattern := by
        simp [testPatterns]
      rw [hp, hs, patternStop?]
      cases Pattern.Regex.ofText pattern with
      | ok regex => rfl
      | error fault => cases fault <;> rfl
    | _ => rfl
  · have hn : testPatterns key argument = [] := by
      unfold testPatterns
      split
      · exact if_neg hkey
      · rfl
    rw [hn]
    unfold testProblems
    simp only [if_neg hkey]
    -- without a pattern every branch gives problems or none
    repeat' split
    all_goals rfl

theorem errorOf?_conditionProblems (field : String) (v : Value) :
    errorOf? (conditionProblems field v) = (conditionPatterns v).findSome? patternStop? := by
  cases v with
  | map tests =>
    cases tests with
    | nil => rfl
    | cons first rest =>
      change errorOf? ((first :: rest).mapM (fun t => testProblems field t.1 t.2) >>=
        fun problems => pure problems.flatten) = _
      rw [errorOf?_bind_pure, errorOf?_mapM, conditionPatterns, findSome?_flatMap]
      simp only [errorOf?_testProblems]
  | list items => cases items <;> rfl
  | _ => rfl

/-- The problems of a specification are collected unless one of its patterns stops that; the first
such pattern does. -/
theorem errorOf?_problems (entries : Entries) :
    errorOf? (problems (.map entries)) = (patterns entries).findSome? patternStop? := by
  rw [problems, entryProblems, errorOf?_bind_pure, errorOf?_mapM, patterns,
    findSome?_flatMap]
  congr 1
  funext e
  cases fieldOf? e.1 with
  | none => rfl
  | some f => exact errorOf?_conditionProblems f.name e.2

end LedgerReport.Filter
