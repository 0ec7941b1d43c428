import Mathlib.Data.List.Chain
import LedgerReport.Report.Graph
import LedgerReport.Proofs.Traversal
/-!
The search for circular references finds one exactly when there is one.

`Graph.Needs` is the relation of the graph. A search that ends well leaves only references behind
from which no infinite chain of needs starts (`visit_settles`); on a graph without cycles every
search ends well, since each reference on the chain needs the one that is visited (`visit_ok`). A
search that fails does so at a reference on the chain, and the chain from there on is a cycle
(`visit_error`).
-/

set_option autoImplicit false

namespace LedgerReport

def Error.IsCircular (e : Error) : Prop := ∃ chain, e = .circularDependency chain

namespace Graph

def Needs (g : Graph) (ref need : Reference) : Prop :=
  ∃ needs, getPair? ref g = some needs ∧ need ∈ needs

def Acyclic (g : Graph) : Prop := ∀ ref, ¬ Relation.TransGen g.Needs ref ref

/-- A chain of needs that returns to its start, and to no other reference on the way. -/
structure IsCycle (g : Graph) (cycle : List Reference) : Prop where
  returns : ∃ ref inner, cycle = ref :: (inner ++ [ref])
  nodup : cycle.dropLast.Nodup
  needs : cycle.IsChain g.Needs

def Settled (g : Graph) (ref : Reference) : Prop := Acc (fun need ref => g.Needs ref need) ref

theorem settled_of_getPair?_none {g : Graph} {ref : Reference} (h : getPair? ref g = none) :
    g.Settled ref := by
  refine Acc.intro ref fun need hn => ?_
  obtain ⟨needs, hg, -⟩ := hn
  rw [h] at hg
  cases hg

theorem Settled.not_transGen {g : Graph} {ref : Reference} (h : g.Settled ref) :
    ¬ Relation.TransGen g.Needs ref ref := by
  unfold Settled at h
  induction h with
  | intro ref _ ih =>
    -- the first need of the cycle is on the same cycle
    intro hc
    have hfirst : ∀ {x y}, Relation.TransGen g.Needs x y →
        ∃ z, g.Needs x z ∧ (z = y ∨ Relation.TransGen g.Needs z y) := by
      intro x y hxy
      induction hxy with
      | single h => exact ⟨_, h, Or.inl rfl⟩
      | tail _ h ih =>
        obtain ⟨z, hz, rfl | hzy⟩ := ih
        · exact ⟨z, hz, Or.inr (.single h)⟩
        · exact ⟨z, hz, Or.inr (.tail hzy h)⟩
    obtain ⟨z, hz, rfl | hzr⟩ := hfirst hc
    · exact ih _ hz hc
    · exact ih z hz (hzr.tail hz)

theorem acyclic_of_settled {g : Graph} (h : ∀ ref, g.Settled ref) : g.Acyclic :=
  fun ref => (h ref).not_transGen

theorem getPair?_without {g : Graph} {ref other : Reference} (h : other ≠ ref) :
    getPair? other (g.without ref) = getPair? other g := by
  unfold getPair? without
  rw [List.find?_filter]
  congr 2
  funext p
  by_cases hp : p.1 = other <;> simp [hp, h]

section Visit
variable {g : Graph} {chain : Chain} {done : List Reference} {ref : Reference}

theorem visit_done (h : ref ∈ done) : g.visit chain done ref = .ok done := by
  rw [visit, if_pos h]

theorem visit_cycle {e : Error} (h : ref ∉ done) (he : chain.enter ref = .error e) :
    g.visit chain done ref = .error e := by
  rw [visit, if_neg h, he]

theorem visit_leaf {entered : Chain} (h : ref ∉ done) (he : chain.enter ref = .ok entered)
    (hg : getPair? ref g = none) : g.visit chain done ref = .ok (done ++ [ref]) := by
  rw [visit, if_neg h, he]
  simp only
  split
  · rfl
  · rename_i hs
    rw [hg] at hs
    cases hs

theorem visit_node {entered : Chain} {needs : List Reference} (h : ref ∉ done)
    (he : chain.enter ref = .ok entered) (hg : getPair? ref g = some needs) :
    g.visit chain done ref =
      (needs.foldlM (fun done need => (g.without ref).visit entered done need) done).map
        (· ++ [ref]) := by
  rw [visit, if_neg h, he]
  simp only
  split
  · rename_i hs
    rw [hg] at hs
    cases hs
  · rename_i hs
    rw [hg] at hs
    cases hs
    rfl

end Visit

/-- The graph of a visit is the whole graph `w` without the references on the chain. -/
def Remains (w g : Graph) (chain : Chain) : Prop :=
  ∀ ref, ref ∉ chain → getPair? ref g = getPair? ref w

theorem Remains.without {w g : Graph} {chain : Chain} {ref : Reference} (h : Remains w g chain) :
    Remains w (g.without ref) (chain ++ [ref]) := by
  intro other ho
  simp only [List.mem_append, List.mem_singleton, not_or] at ho
  rw [getPair?_without ho.2, h other ho.1]

/-- On a graph without cycles a visit ends well, as every reference on the chain needs the one
that is visited. -/
theorem visit_ok {w : Graph} (hw : w.Acyclic) (g : Graph) (chain : Chain) (done : List Reference)
    (ref : Reference) (hg : Remains w g chain)
    (hc : ∀ c ∈ chain, Relation.TransGen w.Needs c ref) :
    ∃ done', g.visit chain done ref = .ok done' := by
  induction g, chain, done, ref using visit.induct with
  | case1 g chain done ref h => exact ⟨done, visit_done h⟩
  | case2 g chain done ref h e he => exact absurd (hc ref (Chain.enter_error he).1) (hw ref)
  | case3 g chain done ref h entered he hn => exact ⟨_, visit_leaf h he hn⟩
  | case4 g chain done ref h entered he needs hs ih =>
    obtain ⟨hr, rfl⟩ := Chain.enter_ok he
    have hsteps : ∀ done, ∀ need ∈ needs,
        ∃ done', (g.without ref).visit (chain ++ [ref]) done need = .ok done' := by
      intro done need hneed
      have hedge : w.Needs ref need := ⟨needs, hg ref hr ▸ hs, hneed⟩
      refine ih done need hg.without fun c hmem => ?_
      rcases List.mem_append.1 hmem with hmem | hmem
      · exact (hc c hmem).tail hedge
      · exact List.mem_singleton.1 hmem ▸ .single hedge
    obtain ⟨done', hd⟩ := foldlM_ok hsteps done
    exact ⟨done' ++ [ref], by rw [visit_node h he hs, hd]; rfl⟩

/-- What a visit has done with when it ends well: all that was done with before, and the reference
it started from, with nothing unsettled among them. -/
structure Settles (w : Graph) (before after : List Reference) : Prop where
  keeps : ∀ ref ∈ before, ref ∈ after
  settled : (∀ ref ∈ before, w.Settled ref) → ∀ ref ∈ after, w.Settled ref

theorem Settles.refl (w : Graph) (done : List Reference) : Settles w done done :=
  ⟨fun _ h => h, fun h => h⟩

theorem Settles.trans {w : Graph} {a b c : List Reference} (h : Settles w a b)
    (h' : Settles w b c) : Settles w a c :=
  ⟨fun ref hr => h'.keeps ref (h.keeps ref hr), fun hs => h'.settled (h.settled hs)⟩

theorem foldlM_settles {w : Graph}
    {step : List Reference → Reference → Except Error (List Reference)}
    {needs before after : List Reference}
    (h : ∀ s t, ∀ need ∈ needs, step s need = .ok t → Settles w s t ∧ need ∈ t)
    (hf : needs.foldlM step before = .ok after) :
    Settles w before after ∧ ∀ need ∈ needs, need ∈ after := by
  induction needs generalizing before with
  | nil =>
    cases hf
    exact ⟨.refl w _, by simp⟩
  | cons x xs ih =>
    rw [List.foldlM_cons] at hf
    cases hx : step before x with
    | error e => simp [hx, bind, Except.bind] at hf
    | ok middle =>
      simp only [hx, bind, Except.bind] at hf
      obtain ⟨hfirst, hxm⟩ := h before middle x (by simp) hx
      obtain ⟨hrest, hxs⟩ := ih (fun s t y hy => h s t y (by simp [hy])) hf
      refine ⟨hfirst.trans hrest, fun need hn => ?_⟩
      rcases List.mem_cons.1 hn with rfl | hn
      · exact hrest.keeps need hxm
      · exact hxs need hn

theorem visit_settles {w : Graph} (g : Graph) (chain : Chain) (done : List Reference)
    (ref : Reference) {done' : List Reference} (hg : Remains w g chain)
    (hv : g.visit chain done ref = .ok done') : Settles w done done' ∧ ref ∈ done' := by
  induction g, chain, done, ref using visit.induct generalizing done' with
  | case1 g chain done ref h =>
    rw [visit_done h] at hv
    cases hv
    exact ⟨.refl w done, h⟩
  | case2 g chain done ref h e he =>
    rw [visit_cycle h he] at hv
    cases hv
  | case3 g chain done ref h entered he hn =>
    rw [visit_leaf h he hn] at hv
    cases hv
    have hs : w.Settled ref := settled_of_getPair?_none (hg ref (Chain.enter_ok he).1 ▸ hn)
    refine ⟨⟨fun x hx => List.mem_append_left _ hx, fun hd x hx => ?_⟩, by simp⟩
    rcases List.mem_append.1 hx with hx | hx
    · exact hd x hx
    · exact List.mem_singleton.1 hx ▸ hs
  | case4 g chain done ref h entered he needs hs ih =>
    obtain ⟨hr, rfl⟩ := Chain.enter_ok he
    rw [visit_node h he hs] at hv
    cases hf : needs.foldlM (fun done need => (g.without ref).visit (chain ++ [ref]) done need)
        done with
    | error e => simp [hf, Except.map] at hv
    | ok middle =>
      simp only [hf, Except.map, Except.ok.injEq] at hv
      subst hv
      obtain ⟨hm, hneeds⟩ := foldlM_settles
        (fun s t need _ hstep => ih s need hg.without hstep) hf
      refine ⟨⟨fun x hx => List.mem_append_left _ (hm.keeps x hx), fun hd x hx => ?_⟩, by simp⟩
      rcases List.mem_append.1 hx with hx | hx
      · exact hm.settled hd x hx
      · -- all that the reference needs was settled before it
        have hx := List.mem_singleton.1 hx
        subst hx
        refine Acc.intro x fun need hn => ?_
        obtain ⟨needs', hs', hneed⟩ := hn
        rw [← hg x hr, hs] at hs'
        cases hs'
        exact hm.settled hd need (hneeds need hneed)

/-- Whether the references on a chain, each of which needs the next, lead to a reference. -/
structure LeadsTo (w : Graph) (chain : Chain) (ref : Reference) : Prop where
  nodup : chain.Nodup
  needs : (chain ++ [ref]).IsChain w.Needs

theorem LeadsTo.nil (w : Graph) (ref : Reference) : LeadsTo w [] ref := ⟨.nil, .singleton ref⟩

theorem LeadsTo.snoc {w : Graph} {chain : Chain} {ref need : Reference} (h : LeadsTo w chain ref)
    (hr : ref ∉ chain) (hn : w.Needs ref need) : LeadsTo w (chain ++ [ref]) need := by
  refine ⟨List.nodup_append.2 ⟨h.nodup, by simp, ?_⟩, h.needs.append (.singleton need) ?_⟩
  · rintro a ha b hb rfl
    exact hr (List.mem_singleton.1 hb ▸ ha)
  · simpa using hn

theorem LeadsTo.isCycle {w : Graph} {chain : Chain} {ref : Reference} (h : LeadsTo w chain ref)
    (hr : ref ∈ chain) : w.IsCycle (chain.cycle ref) := by
  obtain ⟨before, inner, rfl, hnot⟩ := List.eq_append_cons_of_mem hr
  have hcycle : Chain.cycle (before ++ ref :: inner) ref = ref :: (inner ++ [ref]) := by
    rw [Chain.cycle_append _ hnot]
    simp [Chain.cycle]
  rw [hcycle]
  refine ⟨⟨ref, inner, rfl⟩, ?_, ?_⟩
  · rw [← List.cons_append, List.dropLast_concat]
    exact (List.nodup_append.1 h.nodup).2.1
  · exact h.needs.suffix ⟨before, by simp⟩

def TellsCycle (g : Graph) (e : Error) : Prop :=
  ∃ cycle, e = .circularDependency (cycle.map Reference.text) ∧ g.IsCycle cycle

theorem TellsCycle.isCircular {g : Graph} {e : Error} (h : g.TellsCycle e) : e.IsCircular := by
  obtain ⟨cycle, rfl, -⟩ := h
  exact ⟨_, rfl⟩

theorem visit_error {w : Graph} (g : Graph) (chain : Chain) (done : List Reference)
    (ref : Reference) {e : Error} (hg : Remains w g chain) (hc : LeadsTo w chain ref)
    (hv : g.visit chain done ref = .error e) : w.TellsCycle e := by
  induction g, chain, done, ref using visit.induct generalizing e with
  | case1 g chain done ref h =>
    rw [visit_done h] at hv
    cases hv
  | case2 g chain done ref h e' he =>
    rw [visit_cycle h he] at hv
    cases hv
    obtain ⟨hr, rfl⟩ := Chain.enter_error he
    exact ⟨_, rfl, hc.isCycle hr⟩
  | case3 g chain done ref h entered he hn =>
    rw [visit_leaf h he hn] at hv
    cases hv
  | case4 g chain done ref h entered he needs hs ih =>
    obtain ⟨hr, rfl⟩ := Chain.enter_ok he
    rw [visit_node h he hs] at hv
    cases hf : needs.foldlM (fun done need => (g.without ref).visit (chain ++ [ref]) done need)
        done with
    | ok middle => simp [hf, Except.map] at hv
    | error e' =>
      simp only [hf, Except.map, Except.error.injEq] at hv
      subst hv
      refine foldlM_error w.TellsCycle (fun s need hneed e he => ?_) hf
      have hedge : w.Needs ref need := ⟨needs, hg ref hr ▸ hs, hneed⟩
      exact ih s need hg.without (hc.snoc hr hedge) he

theorem checkCycles_ok {g : Graph} (h : g.Acyclic) : g.checkCycles = .ok () := by
  have hsteps : ∀ done, ∀ ref ∈ g.map (·.1), ∃ done', g.visit [] done ref = .ok done' :=
    fun done ref _ => visit_ok h g [] done ref (fun _ _ => rfl) (by simp)
  obtain ⟨done, hd⟩ := foldlM_ok hsteps []
  simp only [checkCycles, hd, bind, Except.bind, pure, Except.pure]

theorem acyclic_of_checkCycles {g : Graph} (h : g.checkCycles = .ok ()) : g.Acyclic := by
  unfold checkCycles at h
  cases hf : (g.map (·.1)).foldlM (fun done ref => g.visit [] done ref) [] with
  | error e => simp [hf, bind, Except.bind] at h
  | ok done =>
    obtain ⟨hs, hm⟩ := foldlM_settles (w := g)
      (fun s t ref _ hv => visit_settles g [] s ref (fun _ _ => rfl) hv) hf
    refine acyclic_of_settled fun ref => ?_
    cases hg : getPair? ref g with
    | none => exact settled_of_getPair?_none hg
    | some needs =>
      obtain ⟨p, hp, -⟩ := Option.map_eq_some_iff.1 hg
      have hkey : ref ∈ g.map (·.1) :=
        List.mem_map.2 ⟨p, List.mem_of_find?_eq_some hp, by simpa using List.find?_some hp⟩
      exact hs.settled (by simp) ref (hm ref hkey)

theorem checkCycles_error {g : Graph} {e : Error} (h : g.checkCycles = .error e) :
    g.TellsCycle e := by
  unfold checkCycles at h
  cases hf : (g.map (·.1)).foldlM (fun done ref => g.visit [] done ref) [] with
  | ok done => simp [hf, bind, Except.bind, pure, Except.pure] at h
  | error e' =>
    simp only [hf, bind, Except.bind, Except.error.injEq] at h
    subst h
    exact foldlM_error g.TellsCycle
      (fun s ref _ e he => visit_error g [] s ref (fun _ _ => rfl) (.nil g ref) he) hf

theorem IsCycle.transGen {g : Graph} {cycle : List Reference} (h : g.IsCycle cycle) :
    ∃ ref ∈ cycle, Relation.TransGen g.Needs ref ref := by
  obtain ⟨ref, inner, rfl⟩ := h.returns
  have hreturn : ∀ inner x, (x :: (inner ++ [ref])).IsChain g.Needs →
      Relation.TransGen g.Needs x ref := by
    intro inner
    induction inner with
    | nil => exact fun x hx => .single (List.isChain_pair.1 hx)
    | cons y inner ih =>
      intro x hx
      obtain ⟨hxy, hy⟩ := List.isChain_cons_cons.1 hx
      exact .head hxy (ih y hy)
  exact ⟨ref, List.mem_cons_self, hreturn inner ref h.needs⟩

theorem IsCycle.not_acyclic {g : Graph} {cycle : List Reference} (h : g.IsCycle cycle) :
    ¬ g.Acyclic := by
  obtain ⟨ref, -, hc⟩ := h.transGen
  exact fun ha => ha ref hc

theorem IsCycle.reaches {g : Graph} {cycle : List Reference} (h : g.IsCycle cycle)
    {x y : Reference} (hx : x ∈ cycle) (hy : y ∈ cycle) : Relation.ReflTransGen g.Needs x y := by
  obtain ⟨ref, inner, rfl⟩ := h.returns
  have hp : (ref :: (inner ++ [ref])).Pairwise (Relation.ReflTransGen g.Needs) :=
    (h.needs.imp fun _ _ => Relation.ReflTransGen.single).pairwise
  obtain ⟨hhead, htail⟩ := List.pairwise_cons.1 hp
  have hback : ∀ z ∈ ref :: (inner ++ [ref]), Relation.ReflTransGen g.Needs z ref := by
    intro z hz
    rcases List.mem_cons.1 hz with rfl | hz
    · exact .refl
    · rcases List.mem_append.1 hz with hz | hz
      · exact (List.pairwise_append.1 htail).2.2 z hz ref (by simp)
      · exact List.mem_singleton.1 hz ▸ .refl
  have hforth : ∀ z ∈ ref :: (inner ++ [ref]), Relation.ReflTransGen g.Needs ref z := by
    intro z hz
    rcases List.mem_cons.1 hz with rfl | hz
    · exact .refl
    · exact hhead z hz
  exact (hback x hx).trans (hforth y hy)

end Graph
end LedgerReport
