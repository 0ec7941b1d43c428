import LedgerReport.Proofs.Statement.Columns
/-!
The rows of a definition against its variables resolved without it.

A definition is read into a report before it is evaluated. Its variables can also be resolved as
they stand in it, with the defaults of `Measure.ofValue`. Both give the same: a variable is read
into its own measure (`Measure.ofValue_of_decode`), and a category is a variable with the filter of
the category, reduced to the sum.
-/

set_option autoImplicit false

namespace LedgerReport
open Amount Decoded

def Measures.ofEntries (es : Entries) : Measures :=
  es.map fun e => (e.1.display, Measure.ofValue e.2)

def Entries.mapUnder (es : Entries) (name : String) : Entries :=
  match Entries.get? es name with
  | some (.map fs) => fs
  | _ => []

def Entries.listUnder (es : Entries) (name : String) : List Value :=
  match Entries.get? es name with
  | some (.list vs) => vs
  | _ => []

theorem Decoded.entry_of_optional {α : Type} {es : Entries} {name : String} {default a : α}
    {read : Value → Decoded α} (h : Decoded.optional es [name] default read = .ok a) :
    Entries.get? es name = none ∧ a = default ∨
      ∃ v, Entries.get? es name = some v ∧ read v = .ok a := by
  cases hv : Entries.get? es name with
  | none => simpa [Decoded.optional, entry?, hv, eq_comm] using h
  | some v => simpa [Decoded.optional, entry?, hv, under_eq_ok] using h

theorem decodeFilter_eq_ok {v : Value} {filter : Entries} (h : decodeFilter v = .ok filter) :
    v = .map filter := by
  obtain ⟨pairs, hp, rfl⟩ := map_eq_ok.1 h
  obtain ⟨es, rfl, hes⟩ := dictionary_eq_ok.1 hp
  have hkept : pairs.map (fun p => (Key.text p.1, p.2)) = es.map id :=
    map_eq_of_forall₂ (fun e p hep => Prod.ext hep.1.symm (Decoded.ok.inj hep.2).symm) hes
  rw [hkept, List.map_id]

theorem filter_of_optional {es filter : Entries}
    (h : Decoded.optional es ["filter"] [] decodeFilter = .ok filter) :
    (Entries.get? es "filter").getD (.map []) = .map filter := by
  rcases entry_of_optional h with ⟨hv, rfl⟩ | ⟨v, hv, hfilter⟩
  · rw [hv]
    rfl
  · rw [hv, decodeFilter_eq_ok hfilter]
    rfl

namespace Measure

theorem ofValue_of_filter {es filter : Entries}
    (h : (Entries.get? es "filter").getD (.map []) = .map filter) :
    ofValue (.map es) =
      .ok ⟨.map filter, (Entries.get? es "aggregate").getD (.text Aggregate.sum.name)⟩ := by
  cases hv : Entries.get? es "filter" with
  | none =>
    rw [hv] at h
    cases h
    simp [ofValue, hv, Value.isGiven]
  | some v =>
    rw [hv] at h
    obtain rfl : v = .map filter := h
    cases filter <;> simp [ofValue, hv, Value.isGiven]

theorem ofValue_of_decode {v : Value} {x : Variable} (h : Variable.decode v = .ok x) :
    ofValue v = .ok (ofVariable x) := by
  obtain ⟨es, rfl, hf, ha, -⟩ := Variable.decode_eq_ok.1 h
  have haggregate : (Entries.get? es "aggregate").getD (.text Aggregate.sum.name) =
      .text x.aggregate := by
    rcases entry_of_optional ha with ⟨hv, ha⟩ | ⟨v, hv, ha⟩
    · rw [hv, ha]
      rfl
    · rw [hv]
      cases v <;> cases ha
      rfl
  rw [ofValue_of_filter (filter_of_optional hf), haggregate]
  rfl

end Measure

namespace Resolver
variable {r : Resolver} {measures : Measures} {d : Dataset} {s : Selector}
  {movements : List Movement} {values : List (String × Amount)} {name : String} {a : Amount}

theorem resolveAll_append {m : Except Error Measure}
    (hv : (r.resolveAll measures movements).outcome = .ok values)
    (hm : (Measure.resolve name m movements).outcome = .ok a) :
    (r.resolveAll (measures ++ [(name, m)]) movements).outcome = .ok (values ++ [(name, a)]) := by
  rw [resolveAll_outcome] at hv ⊢
  rw [List.mapM_append, hv, List.mapM_cons, hm]
  rfl

theorem resolveAll_names (hv : (r.resolveAll measures movements).outcome = .ok values) :
    values.map Prod.fst = measures.map Prod.fst := by
  rw [resolveAll_outcome] at hv
  refine map_eq_of_forall₂ (fun m v hmv => ?_) (forall₂_of_mapM_eq_ok hv)
  obtain ⟨a, -, rfl⟩ := except_map_eq_ok.1 hmv
  rfl

theorem getPair?_append_of_new (hn : name ∉ values.map Prod.fst) :
    getPair? name (values ++ [(name, a)]) = some a := by
  have hne : ∀ p ∈ values, p.1 ≠ name := fun p hp he => hn (List.mem_map.2 ⟨p, hp, he⟩)
  rw [← setPair_eq_append a hne]
  exact getPair?_setPair_self name a values

end Resolver

namespace Report
variable {r : Report} {es : Entries}

theorem measures_of_decode (h : decodeEntries es = .ok r) :
    Measures.ofEntries (es.mapUnder "variables") = r.measures := by
  obtain ⟨-, -, -, -, -, hvars, -, -⟩ := decodeEntries_eq_ok.1 h
  unfold Entries.mapUnder measures
  rcases entry_of_optional hvars with ⟨hv, hnone⟩ | ⟨v, hv, hread⟩
  · rw [hv, hnone]
    rfl
  · obtain ⟨vs, rfl, hvs⟩ := dictionary_eq_ok.1 hread
    rw [hv]
    symm
    refine map_eq_of_forall₂ (fun e p hep => ?_) hvs
    rw [hep.1, Measure.ofValue_of_decode hep.2]
    rfl

theorem items_of_decode (h : decodeEntries es = .ok r) :
    List.Forall₂ (fun v item => Item.decode v = .ok item) (es.listUnder "layout") r.layout := by
  obtain ⟨-, -, -, -, -, -, hlayout, -⟩ := decodeEntries_eq_ok.1 h
  unfold Entries.listUnder
  rcases entry_of_optional hlayout with ⟨hv, hnone⟩ | ⟨v, hv, hread⟩
  · rw [hv, hnone]
    exact .nil
  · obtain ⟨items, rfl, hitems⟩ := list_eq_ok.1 hread
    rw [hv]
    exact hitems

end Report

theorem Content.type_of_decode {type : RowType} {fields : Entries} {c : Content}
    (h : decode type fields = .ok c) : c.type = type := by
  cases type with
  | variableRow =>
    obtain ⟨_, -, rfl⟩ := map_eq_ok.1 h
    rfl
  | calculated =>
    obtain ⟨_, -, rfl⟩ := map_eq_ok.1 h
    rfl
  | category =>
    obtain ⟨_, -, rfl⟩ := map_eq_ok.1 h
    rfl
  | subtotal =>
    obtain ⟨_, _, hfrom, -, rfl⟩ := seq_eq_ok.1 h
    obtain ⟨_, -, rfl⟩ := map_eq_ok.1 hfrom
    rfl
  | spacer =>
    cases h
    rfl

namespace Item
variable {fields : Entries} {item : Item}

theorem content_of_decode (h : decode (.map fields) = .ok item) :
    Content.decode item.content.type fields = .ok item.content := by
  obtain ⟨es, tag, type, hes, -, -, h⟩ := decode_eq_ok.1 h
  cases hes
  obtain ⟨-, -, -, -, -, hcontent⟩ := decodeAs_eq_ok.1 h
  rw [Content.type_of_decode hcontent]
  exact hcontent

theorem variable_of_decode {name : String} (h : decode (.map fields) = .ok item)
    (hc : item.content = .ofVariable name) :
    Entries.get? fields "variable" = some (.text name) := by
  have hcontent := content_of_decode h
  rw [hc] at hcontent
  obtain ⟨n, hn, hname⟩ := map_eq_ok.1 hcontent
  cases hname
  cases hv : Entries.get? fields "variable" with
  | none => simp [required, entry?, hv] at hn
  | some v =>
    simp only [required, entry?, List.findSome?, hv, Option.map_some, under_eq_ok] at hn
    cases v <;> cases hn
    rfl

theorem filter_of_decode {filter : Entries} (h : decode (.map fields) = .ok item)
    (hc : item.content = .category filter) :
    (Entries.get? fields "filter").getD (.map []) = .map filter := by
  have hcontent := content_of_decode h
  rw [hc] at hcontent
  obtain ⟨f, hf, hfilter⟩ := map_eq_ok.1 hcontent
  cases hfilter
  exact filter_of_optional hf

end Item

/-- Whether a raw definition adds up what a raw category does: their filters are the same, and its
aggregate is the sum, by whatever name. -/
def SumsLike (category definition : Entries) : Prop :=
  (Entries.get? definition "filter").getD (.map []) =
    (Entries.get? category "filter").getD (.map []) ∧
  Aggregate.read ((Entries.get? definition "aggregate").getD (.text Aggregate.sum.name)) =
    .ok .sum

/-- Whether a row belongs to a raw item and has the value that resolution gives without a report:
that of its variable, or that of one more variable with the filter of its category. -/
structure Row.IsDirect (resolver : Resolver) (vars : Measures) (values : List (String × Amount))
    (d : Dataset) (s : Selector) (raw : Value) (row : Row) : Prop where
  item : ∃ item, Item.decode raw = .ok item ∧ row.order = item.order ∧
    row.type = item.content.type
  ofVariable : row.type = .variableRow → ∃ fields name, raw = .map fields ∧
    Entries.get? fields "variable" = some (.text name) ∧ getPair? name values = some row.value
  ofCategory : row.type = .category → ∃ fields, raw = .map fields ∧
    ∀ name definition, name ∉ vars.map Prod.fst → SumsLike fields definition →
      ∃ more, (resolver.resolveSelected (vars ++ [(name, Measure.ofValue (.map definition))])
          d s).outcome = .ok more ∧
        getPair? name more = some row.value

namespace Engine
variable {e : Engine} {r : Report} {d : Dataset} {s : Selector} {shown : List Row}
  {movements : List Movement} {values : List (String × Amount)}

theorem isDirect_of_equation {vars : Measures} {raw : Value} {item : Item} {row : Row}
    {v : Int → Option Float}
    (hm : (s.restrict e.resolver.policy d).outcome = .ok movements)
    (hv : (e.resolver.resolveAll vars movements).outcome = .ok values)
    (hraw : Item.decode raw = .ok item)
    (he : Layout.Equation r.sortedLayout values movements v item (v item.order))
    (horder : row.order = item.order) (htype : row.type = item.content.type)
    (hvalue : row.value = ofReal (v item.order)) :
    row.IsDirect e.resolver vars values d s raw := by
  obtain ⟨fields, -, -, rfl, -, -, -⟩ := Item.decode_eq_ok.1 hraw
  refine ⟨⟨item, hraw, horder, htype⟩, fun ht => ?_, fun ht => ?_⟩
  · obtain ⟨name, hc⟩ : ∃ name, item.content = .ofVariable name := by
      cases hc : item.content <;> simp [hc, Content.type, ht] at htype ⊢
    simp only [Layout.Equation, hc] at he
    exact ⟨fields, name, rfl, Item.variable_of_decode hraw hc, hvalue ▸ he⟩
  · obtain ⟨filter, hc⟩ : ∃ filter, item.content = .category filter := by
      cases hc : item.content <;> simp [hc, Content.type, ht] at htype ⊢
    simp only [Layout.Equation, hc] at he
    obtain ⟨f, hf, hsum⟩ := he
    refine ⟨fields, rfl, fun name definition hn hlike => ?_⟩
    have hfilter := hlike.1.trans (Item.filter_of_decode hraw hc)
    have hone : (Measure.resolve name (Measure.ofValue (.map definition)) movements).outcome =
        .ok (ofReal (v item.order)) := by
      rw [Measure.ofValue_of_filter hfilter]
      exact Measure.resolve_of_value rfl (Measure.value_of_apply hf hlike.2 hsum)
    rw [← Resolver.resolveAll_names hv] at hn
    refine ⟨values ++ [(name, row.value)], ?_, Resolver.getPair?_append_of_new hn⟩
    rw [Resolver.resolveSelected, Logged.outcome_bind, hm, hvalue]
    exact Resolver.resolveAll_append hv hone

/-- The rows that a definition gives are those of its raw items in another order, and each variable
and each category has the value that direct resolution of the raw definitions gives. -/
theorem answer_direct (e : Engine) (es : Entries) (d : Dataset) (s : Selector) (shown : List Row)
    (hreal : ∀ m ∈ d.movements, m.amount.IsReal)
    (h : e.answer ⟨.definition (.map es), d, s, none⟩ = .ok shown) :
    let vars := Measures.ofEntries (es.mapUnder "variables")
    ∃ values, (e.resolver.resolveSelected vars d s).outcome = .ok values ∧
      ∃ items, items.Perm (es.listUnder "layout") ∧
        List.Forall₂ (Row.IsDirect e.resolver vars values d s) items shown := by
  obtain ⟨r, hr, hc⟩ := exists_of_answer h
  obtain ⟨rows, hcolumn, hshown⟩ := column_of_answer hr hc h
  have hr' : Report.ofValue (.map es) = .ok r := hr
  obtain ⟨es', hes, hdecode⟩ := Report.ofValue_eq_ok hr'
  cases hes
  have hi := Report.issues_of_check hc
  have hsound := Report.sound_of_issues hi
  intro vars
  have hvars : vars = r.measures := Report.measures_of_decode hdecode
  unfold column at hcolumn
  rw [Logged.outcome_bind] at hcolumn
  obtain ⟨movements, hm, hcolumn⟩ := bind_eq_ok.1 hcolumn
  rw [Logged.outcome_bind] at hcolumn
  obtain ⟨values, hv, hrows⟩ := bind_eq_ok.1 hcolumn
  have hselected : ∀ m ∈ movements, m.amount.IsReal := by
    rw [(Selector.restrict_eq_ok_iff.1 hm).2]
    exact fun m hs => hreal m (List.mem_filter.1 hs).1
  obtain ⟨values', hv', hall⟩ := hsound.resolveAll_ok e.resolver hselected
  obtain rfl : values = values' := Except.ok.inj (hv.symm.trans hv')
  obtain ⟨v, hsol, hrows'⟩ := hsound.exists_rows ((Report.check_ok_iff hi).1 hc) hall hselected
  obtain rfl := Except.ok.inj (hrows.symm.trans hrows')
  rw [← hvars] at hv
  refine ⟨values, ?_, ?_⟩
  · rw [Resolver.resolveSelected, Logged.outcome_bind, hm]
    exact hv
  -- the raw items in the order of the rows
  obtain ⟨items, hitems, hperm⟩ := List.perm_comp_forall₂ r.perm_sortedLayout
    (Report.items_of_decode hdecode).flip
  refine ⟨items, hperm, ?_⟩
  have hdisplayed := List.forall₂_map_left_iff.1 (forall₂_of_mapM_eq_ok hshown)
  have hpair := (List.forall₂_and_left _ _).2 ⟨hsol, hdisplayed⟩
  refine forall₂_comp (fun raw item row hraw hrow => ?_) hitems.flip hpair
  obtain ⟨he, hrow⟩ := hrow
  obtain ⟨value, -, rfl⟩ := Display.formatRow_alone_eq_ok hrow
  exact isDirect_of_equation hm hv hraw he rfl rfl rfl

def counter : Entries := [(.text "reportId", .text "counter"), (.text "name", .text "Counter"),
  (.text "version", .text "1.0.0"), (.text "statementType", .text "income"),
  (.text "variables", .ofFields [("cash", .map [])]),
  (.text "layout", .list [
    .ofFields [("order", .whole 10), ("type", .text "variable"), ("variable", .text "cash")],
    .ofFields [("order", .whole 20), ("type", .text "category")]])]

def counterReport : Report where
  id := "counter"
  name := "Counter"
  version := "1.0.0"
  statement := .income
  description := none
  vars := [("cash", ⟨[], "sum", none⟩)]
  layout := [⟨10, none, none, none, 0, .ofVariable "cash"⟩,
    ⟨20, none, none, none, 0, .category []⟩]
  formatting := none

theorem read_counter : (Report.Given.definition (.map counter)).read = .ok counterReport := by cbv

theorem check_counter : counterReport.check.outcome = .ok () := by cbv

theorem resolveAll_counter :
    (plain.resolver.resolveAll counterReport.measures [cash 80.0]).outcome =
      .ok [("cash", ofReal (some (0.0 + 80.0)))] := by
  have hsum : Aggregate.sum.apply (([cash 80.0].filter (Filter.holds [])).map Movement.amount) =
      .ok (ofReal (some (0.0 + 80.0))) := Aggregate.apply_sum [some 80.0]
  have hcash : (Measure.resolve "cash" (.ok ⟨.map [], .text "sum"⟩) [cash 80.0]).outcome =
      .ok (ofReal (some (0.0 + 80.0))) :=
    Measure.resolve_of_value rfl (Measure.value_of_apply rfl Aggregate.read_sum hsum)
  rw [Resolver.resolveAll_outcome]
  change ([("cash", Except.ok ⟨.map [], .text "sum"⟩)] : Measures).mapM _ = _
  rw [List.mapM_cons, hcash]
  rfl

theorem column_counter : (plain.column counterReport till (.year 2024)).outcome =
    .ok [Row.ofItem ⟨10, none, none, none, 0, .ofVariable "cash"⟩ (ofReal (some (0.0 + 80.0))),
      Row.ofItem ⟨20, none, none, none, 0, .category []⟩ (ofReal (some (0.0 + 80.0)))] := by
  have hi := Report.issues_of_check check_counter
  have hsort : counterReport.sortedLayout = counterReport.layout :=
    List.mergeSort_of_pairwise (by decide)
  have hv : ∀ p ∈ counterReport.vars,
      ∃ x, getPair? p.1 [("cash", ofReal (some (0.0 + 80.0)))] = some (ofReal x) := by
    intro p hp
    rw [List.mem_singleton.1 hp]
    exact ⟨some (0.0 + 80.0), rfl⟩
  have hsol : Layout.Solves counterReport.sortedLayout [("cash", ofReal (some (0.0 + 80.0)))]
      [cash 80.0] fun _ => some (0.0 + 80.0) := by
    intro item hitem
    have hitem := Report.mem_sortedLayout.1 hitem
    simp only [counterReport, List.mem_cons, List.not_mem_nil, or_false] at hitem
    rcases hitem with rfl | rfl
    · rfl
    · exact ⟨[], rfl, Aggregate.apply_sum [some 80.0]⟩
  have hrows := (Report.sound_of_issues hi).rows_eq ((Report.check_ok_iff hi).1 check_counter) hv
    hsol
  rw [hsort] at hrows
  have hm : ((Selector.year 2024).restrict plain.resolver.policy till).outcome = .ok [cash 80.0] :=
    rfl
  unfold column
  rw [Logged.outcome_bind, hm]
  change (plain.resolver.resolveAll counterReport.measures [cash 80.0] >>= fun values =>
    Logged.ofExcept (counterReport.rows values [cash 80.0])).outcome = _
  rw [Logged.outcome_bind, resolveAll_counter]
  exact hrows

theorem answer_direct_counter : ∃ shown values,
    (∀ m ∈ till.movements, m.amount.IsReal) ∧
    plain.answer ⟨.definition (.map counter), till, .year 2024, none⟩ = .ok shown ∧
    (plain.resolver.resolveSelected (Measures.ofEntries (counter.mapUnder "variables")) till
      (.year 2024)).outcome = .ok values ∧
    ∃ items, items.Perm (counter.listUnder "layout") ∧
      List.Forall₂ (Row.IsDirect plain.resolver
        (Measures.ofEntries (counter.mapUnder "variables")) values till (.year 2024)) items
        shown := by
  have hreal : ∀ m ∈ till.movements, m.amount.IsReal := by
    intro m hm
    simp only [till, List.mem_cons, List.not_mem_nil, or_false] at hm
    rcases hm with rfl | rfl <;> rfl
  have hshown : ∃ shown,
      plain.answer ⟨.definition (.map counter), till, .year 2024, none⟩ = .ok shown := by
    rw [answer_eq read_counter check_counter, unformatted, Logged.outcome_bind, column_counter]
    exact exists_of_isOk (by decide +kernel)
  obtain ⟨shown, hshown⟩ := hshown
  obtain ⟨values, hvalues, hrows⟩ :=
    answer_direct plain counter till (.year 2024) shown hreal hshown
  exact ⟨shown, values, hreal, hshown, hvalues, hrows⟩

end Engine
end LedgerReport
