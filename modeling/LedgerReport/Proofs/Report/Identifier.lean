import Mathlib
import LedgerReport.Proofs.Expression.Identifier
import LedgerReport.Proofs.Report.Order
/-!
The names of variables against the identifiers of expressions.

The checks of a report let the name of a variable pass if it is an identifier, and also if it is one
with a line feed behind it. In an expression such a name is the variable without the line feed, so
the variable that has it can pass and not be referred to.
-/

set_option autoImplicit false

namespace LedgerReport

namespace Report

theorem isIdentifierChars_iff {cs : List Char} :
    isIdentifierChars cs = true ↔ TokenKind.name.Admits cs := by
  cases cs with
  | nil => simp [isIdentifierChars, TokenKind.Admits]
  | cons c r => simp [isIdentifierChars, TokenKind.Admits]

theorem isIdentifier_iff {s : String} :
    isIdentifier s = true ↔ Node.NamesItself s ∨ ∃ t, s = t ++ "\n" ∧ Node.NamesItself t := by
  have hlast : (s.toList.getLast? = some '\n' ∧ isIdentifierChars s.toList.dropLast = true) ↔
      ∃ t, s = t ++ "\n" ∧ Node.NamesItself t := by
    constructor
    · rintro ⟨hf, hc⟩
      refine ⟨String.ofList s.toList.dropLast, ?_, ?_⟩
      · rw [← String.toList_inj, String.toList_append, String.toList_ofList]
        exact (List.dropLast_append_getLast? _ hf).symm
      · rw [Node.namesItself_iff, String.toList_ofList]
        exact isIdentifierChars_iff.1 hc
    · rintro ⟨t, rfl, ht⟩
      have hl : (t ++ "\n").toList = t.toList ++ ['\n'] := String.toList_append
      rw [hl, List.getLast?_concat, List.dropLast_concat]
      exact ⟨rfl, isIdentifierChars_iff.2 (Node.namesItself_iff.1 ht)⟩
  rw [isIdentifier, Bool.or_eq_true, Bool.and_eq_true, decide_eq_true_eq, hlast,
    isIdentifierChars_iff, ← Node.namesItself_iff]

def identifierIssue (name : String) : Issue :=
  ⟨"variables." ++ name, "Variable name must be a valid identifier"⟩

/-- Whether an issue is not one of a name: its path is not in the variables, or its message starts
with another letter. -/
def IsApart (i : Issue) : Prop :=
  i.path.toList.head? ≠ some 'v' ∨ i.message.toList.head? ≠ some 'V'

theorem ne_of_isApart {i : Issue} (h : IsApart i) (name : String) : i ≠ identifierIssue name := by
  rintro rfl
  rcases h with h | h
  · exact h (by simp [identifierIssue, String.toList_append])
  · exact h (by simp [identifierIssue])

end Report

namespace Filter

theorem head?_testProblems {field : String} {key : Key} {argument : Value} {problems : List String}
    (h : testProblems field key argument = .ok problems) :
    ∀ p ∈ problems, p.toList.head? ≠ some 'V' := by
  unfold testProblems at h
  dsimp only at h
  repeat' split at h
  all_goals cases h
  all_goals simp [String.toList_append]

theorem head?_conditionProblems {field : String} {v : Value} {problems : List String}
    (h : conditionProblems field v = .ok problems) :
    ∀ p ∈ problems, p.toList.head? ≠ some 'V' := by
  unfold conditionProblems at h
  split at h
  case h_5 first rest =>
    obtain ⟨found, hf, hp⟩ := bind_eq_ok.1 h
    cases hp
    exact forall_mem_flatten_of_mapM hf fun t _ ps ht => head?_testProblems ht
  case h_3 values _ =>
    cases h
    split <;> simp [String.toList_append]
  all_goals
    cases h
    simp [String.toList_append]

theorem head?_problems {entries : Entries} {problems : List String}
    (h : Filter.problems (.map entries) = .ok problems) :
    ∀ p ∈ problems, p.toList.head? ≠ some 'V' := by
  obtain ⟨found, hf, hp⟩ := bind_eq_ok.1 h
  cases hp
  refine forall_mem_flatten_of_mapM hf fun e _ ps he => ?_
  split at he
  · exact head?_conditionProblems he
  · cases he
    simp [String.toList_append]

end Filter

namespace Report

theorem isApart_filterIssues {path : String} {filter : Entries} {found : List Issue}
    (h : filterIssues path filter = .ok found) : ∀ i ∈ found, IsApart i := by
  obtain ⟨problems, hp, hf⟩ := bind_eq_ok.1 h
  cases hf
  intro i hi
  obtain ⟨p, hp', rfl⟩ := List.mem_map.1 hi
  exact .inr (Filter.head?_problems hp p hp')

/-- Among the issues of a variable that of a name is the one of its own, if it is no identifier. -/
theorem identifierIssue_mem_variableIssues {name other : String} {v : Variable} {found : List Issue}
    (h : variableIssues other v = .ok found) :
    identifierIssue name ∈ found ↔ other = name ∧ isIdentifier name = false := by
  obtain ⟨ofFilter, hf, hfound⟩ := bind_eq_ok.1 h
  cases hfound
  have hfilter : identifierIssue name ∉ ofFilter := fun hi =>
    ne_of_isApart (isApart_filterIssues hf _ hi) name rfl
  have haggregate : ∀ i ∈ (if (Aggregate.ofValue? (.text v.aggregate)).isSome then [] else
      [⟨"variables." ++ other ++ ".aggregate", "Unsupported aggregate function: " ++ v.aggregate ++
        ". Valid functions are: " ++ String.intercalate ", " (Aggregate.all.map Aggregate.name)⟩] :
        List Issue), IsApart i := by
    split
    · nofun
    · rintro i hi
      rw [List.mem_singleton.1 hi]
      exact .inr (by simp [String.toList_append])
  have hname : identifierIssue name = identifierIssue other ↔ other = name := by
    simp [identifierIssue, eq_comm]
  rw [List.mem_append, List.mem_append,
    or_iff_left fun hi => ne_of_isApart (haggregate _ hi) name rfl, or_iff_left hfilter]
  cases hid : isIdentifier other with
  | true =>
    simp only [if_true, List.not_mem_nil, false_iff]
    rintro ⟨rfl, hn⟩
    rw [hid] at hn
    cases hn
  | false =>
    rw [if_neg Bool.false_ne_true, List.mem_singleton]
    refine hname.trans ⟨?_, And.left⟩
    rintro rfl
    exact ⟨rfl, hid⟩

theorem path_of_mem_referenceIssues {r : Report} {path : String} {refs : List Reference} :
    ∀ i ∈ r.referenceIssues path refs, i.path = path := by
  intro i hi
  obtain ⟨ref, -, hi⟩ := List.mem_filterMap.1 hi
  repeat' split at hi
  all_goals cases hi
  all_goals rfl

theorem path_of_mem_rangeIssues {r : Report} {path : String} {order first last : Int} :
    ∀ i ∈ r.rangeIssues path order first last, ∃ part, i.path = path ++ part := by
  have hwhole : path = path ++ "" := String.append_empty.symm
  intro i hi
  rcases List.mem_append.1 hi with hi | hi
  · rcases List.mem_append.1 hi with hi | hi
    all_goals
      dsimp only at hi
      split at hi
      · cases hi
      · rw [List.mem_singleton.1 hi, String.append_assoc]
        exact ⟨_, rfl⟩
  · repeat' split at hi
    · exact ⟨"", by rwa [List.mem_singleton.1 hi]⟩
    · exact ⟨"", by rwa [List.mem_singleton.1 hi]⟩
    · cases hi

theorem isApart_itemIssues {r : Report} {index : Nat} {item : Item} {found : List Issue}
    (h : r.itemIssues index item = .ok found) : ∀ i ∈ found, IsApart i := by
  have hpath : ∀ {i : Issue} part, i.path = itemPath index ++ part → IsApart i := by
    intro i part hi
    exact .inl (by simp [hi, itemPath, String.toList_append])
  unfold itemIssues at h
  dsimp only at h
  split at h
  · cases h
    split
    · nofun
    · rintro i hi
      rw [List.mem_singleton.1 hi]
      exact hpath _ rfl
  · exact isApart_filterIssues h
  · obtain ⟨node, -, rfl⟩ | ⟨e, -, rfl⟩ := expressionIssues_eq_ok h
    · exact fun i hi => hpath _ (path_of_mem_referenceIssues i hi)
    · rintro i hi
      rw [List.mem_singleton.1 hi]
      exact hpath _ rfl
  · cases h
    rintro i hi
    obtain ⟨part, hp⟩ := path_of_mem_rangeIssues i hi
    exact hpath part hp
  · cases h
    nofun

/-- The issue of a name is found exactly if a variable has the name and it is no identifier. -/
theorem identifierIssue_mem_issues {r : Report} {found : List Issue} (h : r.issues = .ok found)
    {name : String} :
    identifierIssue name ∈ found ↔ (∃ v, (name, v) ∈ r.vars) ∧ isIdentifier name = false := by
  obtain ⟨ofVariables, hv, h⟩ := bind_eq_ok.1 h
  obtain ⟨ofItems, hi, h⟩ := bind_eq_ok.1 h
  cases h
  have hlayout : ∀ i ∈ (if r.layout.isEmpty then
      [⟨"layout", "Layout must contain at least one item"⟩] else [] : List Issue), IsApart i := by
    split
    · rintro i hi
      rw [List.mem_singleton.1 hi]
      exact .inl (by simp)
    · nofun
  have horders : ∀ i ∈ orderIssues r.layout, IsApart i := by
    intro i hi
    obtain ⟨place, -, hi⟩ := List.mem_filterMap.1 hi
    split at hi
    · cases hi
      exact .inl (by simp [itemPath, String.toList_append])
    · cases hi
  have hitems : ∀ i ∈ ofItems.flatten, IsApart i :=
    forall_mem_flatten_of_mapM hi fun place _ issues hp => isApart_itemIssues hp
  have hothers : identifierIssue name ∈ ofVariables.flatten ↔
      (∃ v, (name, v) ∈ r.vars) ∧ isIdentifier name = false := by
    constructor
    · intro hmem
      obtain ⟨issues, his, hmem⟩ := List.mem_flatten.1 hmem
      obtain ⟨⟨other, v⟩, hov, ho⟩ := exists_of_mem_mapM hv issues his
      obtain ⟨rfl, hid⟩ := (identifierIssue_mem_variableIssues ho).1 hmem
      exact ⟨⟨v, hov⟩, hid⟩
    · rintro ⟨⟨v, hnv⟩, hid⟩
      obtain ⟨issues, his, ho⟩ := exists_of_mapM_eq_ok hv _ hnv
      exact List.mem_flatten.2
        ⟨issues, his, (identifierIssue_mem_variableIssues ho).2 ⟨rfl, hid⟩⟩
  simp only [List.mem_append]
  rw [or_iff_left fun hm => ne_of_isApart (hitems _ hm) name rfl,
    or_iff_left fun hm => ne_of_isApart (horders _ hm) name rfl,
    or_iff_left fun hm => ne_of_isApart (hlayout _ hm) name rfl, hothers]

/-- The name of a variable passes exactly if it is read as the variable of that name, or is such a
name with a line feed behind it. A name of the second kind is read as the variable without the line
feed, and no expression refers to the variable that has it; so a variable of a report that passes
its checks can be referred to exactly if its name does not end in a line feed. -/
theorem identifierIssue_not_mem_iff {r : Report} {found : List Issue} {name : String}
    {v : Variable} (h : r.issues = .ok found) (hv : (name, v) ∈ r.vars) :
    (identifierIssue name ∉ found ↔
      Node.NamesItself name ∨ ∃ t, name = t ++ "\n" ∧ Node.NamesItself t) ∧
    ((identifierIssue name ∉ found ↔ Node.NamesItself name) ↔
      ¬ ∃ t, name = t ++ "\n" ∧ Node.NamesItself t) ∧
    (∀ t, name = t ++ "\n" → Node.NamesItself t →
      Node.read name = .ok (.variableAt t 0) ∧ ¬ Node.Referable name) ∧
    (r.check.outcome = .ok () →
      (Node.Referable name ↔ name.toList.getLast? ≠ some '\n')) := by
  have hpasses : identifierIssue name ∉ found ↔
      Node.NamesItself name ∨ ∃ t, name = t ++ "\n" ∧ Node.NamesItself t := by
    rw [identifierIssue_mem_issues h, ← isIdentifier_iff]
    simp only [not_and, Bool.not_eq_false]
    exact ⟨fun hid => hid ⟨v, hv⟩, fun hid _ => hid⟩
  have hfeed : ∀ t, ¬ Node.Referable (t ++ "\n") := fun t hr =>
    Node.getLast?_of_referable hr (Node.getLast?_lineFeed t)
  refine ⟨hpasses, ?_, ?_, fun hc => ⟨Node.getLast?_of_referable, fun hlast => ?_⟩⟩
  · rw [hpasses, ← Node.referable_iff_namesItself]
    constructor
    · rintro hiff ⟨t, rfl, ht⟩
      exact hfeed t (hiff.1 (.inr ⟨t, rfl, ht⟩))
    · exact fun hn => or_iff_left hn
  · rintro t rfl ht
    refine ⟨Node.read_between [] ['\n'] ?_ nofun
      (Node.namesItself_iff.1 ht) ?_, hfeed t⟩
    · rw [String.toList_append]
      rfl
    · intro c hc
      rw [List.mem_singleton.1 hc]
      decide
  · have hnone : identifierIssue name ∉ found := by
      obtain rfl : [] = found := Except.ok.inj ((issues_of_check hc).symm.trans h)
      exact List.not_mem_nil
    rw [Node.referable_iff_namesItself]
    refine (hpasses.1 hnone).resolve_right ?_
    rintro ⟨t, rfl, -⟩
    exact hlast (Node.getLast?_lineFeed t)

def broken : Report where
  id := "broken"
  name := "Broken"
  version := "1.0.0"
  statement := .income
  description := none
  vars := [("sales\n", ⟨[], "sum", none⟩)]
  layout := [⟨10, none, none, none, 0, .ofVariable "sales\n"⟩]
  formatting := none

theorem identifierIssue_not_mem_iff_broken :
    broken.issues = .ok [] ∧ ("sales\n", ⟨[], "sum", none⟩) ∈ broken.vars ∧
    identifierIssue "sales\n" ∉ [] ∧ Node.read "sales\n" = .ok (.variableAt "sales" 0) := by
  have hi : broken.issues = .ok [] := by cbv
  have hv : ("sales\n", ⟨[], "sum", none⟩) ∈ broken.vars := List.mem_singleton.2 rfl
  have hsales : Node.NamesItself "sales" := ⟨0, by cbv⟩
  obtain ⟨hpasses, -, hread, -⟩ := identifierIssue_not_mem_iff hi hv
  have hbroken : "sales\n" = "sales" ++ "\n" := by decide
  exact ⟨hi, hv, hpasses.2 (.inr ⟨_, hbroken, hsales⟩), (hread _ hbroken hsales).1⟩

theorem not_namesItself_broken :
    broken.check.outcome = .ok () ∧
    ¬ ((∀ found, broken.issues = .ok found → identifierIssue "sales\n" ∉ found) ↔
      Node.NamesItself "sales\n") := by
  have hc : broken.check.outcome = .ok () := by cbv
  refine ⟨hc, fun hiff => ?_⟩
  have hself : Node.NamesItself "sales\n" := by
    refine hiff.1 fun found hf => ?_
    obtain rfl : [] = found := Except.ok.inj ((issues_of_check hc).symm.trans hf)
    exact List.not_mem_nil
  exact Node.getLast?_of_referable (Node.referable_iff_namesItself.2 hself) (by decide)

end Report
end LedgerReport
