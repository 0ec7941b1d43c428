import LedgerReport.Proofs.Statement.Answer
/-!
Two columns against the columns of their own.

A column has a row for every row of the layout, in ascending order, whatever the selection
(`IsColumnOf`). So every row of the base finds the row of the same item in the column it is
compared with, and what is answered for two selections is what is answered for each of them, row
by row, with the change between them.
-/

set_option autoImplicit false

namespace LedgerReport

def Row.IsOf (row : Row) (item : Item) : Prop :=
  ∃ a, row = Row.ofItem item a ∧ (item.content = .spacer → a = none)

theorem Row.IsOf.order {row : Row} {item : Item} (h : row.IsOf item) : row.order = item.order := by
  obtain ⟨a, rfl, -⟩ := h
  rfl

def IsColumnOf (items : List Item) (rows : List Row) : Prop :=
  List.Forall₂ (fun item row => Row.IsOf row item) items rows

namespace IsColumnOf
variable {items : List Item} {rows : List Row}

theorem orders (h : IsColumnOf items rows) : rows.map Row.order = items.map Item.order :=
  map_eq_of_forall₂ (fun _ _ hrow => hrow.order) h

theorem exists_item (h : IsColumnOf items rows) : ∀ row ∈ rows, ∃ item ∈ items, row.IsOf item :=
  exists_of_forall₂ (List.Forall₂.flip h)

end IsColumnOf

namespace Layout
variable {layout : List Item} {movements : List Movement} {b b' : Bindings}

theorem isOf_of_row_run {item : Item} {row : Row}
    (h : (Layout.row layout movements item).run b = (.ok row, b')) : row.IsOf item := by
  unfold Layout.row at h
  obtain ⟨a, b₁, ha, h⟩ := Attempt.run_bind_eq_ok h
  have hrow : row = Row.ofItem item a := by
    dsimp only at h
    split at h
    · rw [if_pos rfl, Attempt.run_pure] at h
      exact (Except.ok.inj (congrArg Prod.fst h)).symm
    · rw [if_neg Bool.false_ne_true] at h
      obtain ⟨_, b₂, -, h⟩ := Attempt.run_bind_eq_ok h
      rw [Attempt.run_pure] at h
      exact (Except.ok.inj (congrArg Prod.fst h)).symm
  refine ⟨a, hrow, fun hc => ?_⟩
  unfold value at ha
  simp only [hc, Attempt.run_pure] at ha
  exact (Except.ok.inj (congrArg Prod.fst ha)).symm

theorem isColumnOf_of_mapM_run {items : List Item} {rows : List Row}
    (h : (items.mapM (Layout.row layout movements)).run b = (.ok rows, b')) :
    IsColumnOf items rows := by
  induction items generalizing b b' rows with
  | nil =>
    rw [List.mapM_nil, Attempt.run_pure] at h
    obtain rfl : [] = rows := Except.ok.inj (congrArg Prod.fst h)
    exact .nil
  | cons item items ih =>
    rw [List.mapM_cons] at h
    obtain ⟨row, b₁, hrow, h⟩ := Attempt.run_bind_eq_ok h
    obtain ⟨rest, b₂, hrest, h⟩ := Attempt.run_bind_eq_ok h
    rw [Attempt.run_pure] at h
    obtain rfl : row :: rest = rows := Except.ok.inj (congrArg Prod.fst h)
    exact .cons (isOf_of_row_run hrow) (ih hrest)

end Layout

theorem Report.isColumnOf_of_rows {r : Report} {values : List (String × Amount)}
    {movements : List Movement} {rows : List Row} (h : r.rows values movements = .ok rows) :
    IsColumnOf r.sortedLayout rows := by
  unfold Report.rows Layout.rows at h
  exact Layout.isColumnOf_of_mapM_run (Prod.ext h rfl)

namespace Engine
variable {e : Engine} {r : Report} {d : Dataset} {s : Selector}

theorem isColumnOf_of_column {rows : List Row} (h : (e.column r d s).outcome = .ok rows) :
    IsColumnOf r.sortedLayout rows := by
  unfold column at h
  rw [Logged.outcome_bind] at h
  obtain ⟨movements, -, h⟩ := bind_eq_ok.1 h
  rw [Logged.outcome_bind] at h
  obtain ⟨values, -, h⟩ := bind_eq_ok.1 h
  exact Report.isColumnOf_of_rows h

end Engine

namespace Variance

theorem changePercent_eq_none_iff {base comparison change percent : Amount}
    (h : derive base comparison = .ok (change, percent)) :
    percent = none ↔ base = none ∨ comparison = none ∨ ∃ b, base = some b ∧ b.isZero = true := by
  cases base with
  | none =>
    cases h
    simp
  | some b =>
    cases comparison with
    | none =>
      cases h
      simp
    | some c =>
      obtain ⟨difference, -, h⟩ := bind_eq_ok.1 h
      split at h
      · rename_i hz
        cases h
        simp [hz]
      · rename_i hz
        obtain ⟨share, -, h⟩ := bind_eq_ok.1 h
        obtain ⟨p, -, h⟩ := bind_eq_ok.1 h
        cases h
        simp [hz]

theorem valueAt?_of_mem {rows : List Row} (hn : (rows.map Row.order).Nodup) {row : Row}
    (h : row ∈ rows) : valueAt? rows row.order = some row.value := by
  unfold valueAt?
  cases hf : rows.reverse.find? fun r => r.order = row.order with
  | none =>
    have := List.find?_eq_none.1 hf row (List.mem_reverse.2 h)
    simp at this
  | some other =>
    have ho : other.order = row.order := by simpa using List.find?_some hf
    have hm := List.mem_reverse.1 (List.mem_of_find?_eq_some hf)
    rw [List.inj_on_of_nodup_map hn hm h ho]
    rfl

/-- A row is compared with the row of the same order; a spacer is left as it is. -/
theorem compareRow_eq_ok {others : List Row} {row compared : Row}
    (h : compareRow others row = .ok compared) :
    (row.type = .spacer ∧ compared = row) ∨
    (row.type ≠ .spacer ∧ ∃ change percent,
      derive row.value (valueAt? others row.order).join = .ok (change, percent) ∧
      compared = { row with
        comparison := (valueAt? others row.order).join, change, changePercent := percent }) := by
  unfold compareRow at h
  split at h
  · rename_i hs
    cases h
    exact .inl ⟨hs, rfl⟩
  · rename_i hs
    obtain ⟨⟨change, percent⟩, hd, h⟩ := bind_eq_ok.1 h
    cases h
    refine .inr ⟨hs, change, percent, ?_, rfl⟩
    cases hv : derive row.value (valueAt? others row.order).join with
    | error o =>
      rw [hv] at hd
      cases hd
    | ok both =>
      rw [hv] at hd
      cases hd
      rfl

theorem compareRow_order {others : List Row} {row compared : Row}
    (h : compareRow others row = .ok compared) : compared.order = row.order := by
  rcases compareRow_eq_ok h with ⟨-, rfl⟩ | ⟨-, change, percent, -, rfl⟩ <;> rfl

theorem mapM_of_apply {rows others compared : List Row}
    (h : (apply rows others).outcome = .ok compared) :
    rows.mapM (compareRow others) = .ok compared := by
  unfold apply at h
  rw [Logged.outcome_bind] at h
  obtain ⟨compared', hc, h⟩ := bind_eq_ok.1 h
  rw [Logged.outcome_ofExcept] at hc
  dsimp only at h
  split at h
  · rw [Logged.outcome_bind, Logged.outcome_warn] at h
    cases h
    exact hc
  · cases h
    exact hc

end Variance

namespace Display
variable {rules : FormattingRules} {row shown : Row}

theorem formatRow_alone_eq_ok (h : formatRow rules false row = .ok shown) :
    ∃ value, text rules (.ofAmount row.value) row.format = .ok value ∧
      shown = { row with formatted := [("value", value)] } := by
  obtain ⟨value, hv, h⟩ := bind_eq_ok.1 h
  cases h
  exact ⟨value, hv, rfl⟩

theorem formatRow_compared_eq_ok (h : formatRow rules true row = .ok shown) :
    ∃ value comparison change percent,
      text rules (.ofAmount row.value) row.format = .ok value ∧
      text rules (.ofAmount row.comparison) row.format = .ok comparison ∧
      text rules (.ofAmount row.change) row.format = .ok change ∧
      text rules (.ofAmount row.changePercent) .percent = .ok percent ∧
      shown = { row with formatted := [("value", value), ("comparison_value", comparison),
        ("variance_amount", change), ("variance_percent", percent)] } := by
  obtain ⟨value, hv, h⟩ := bind_eq_ok.1 h
  obtain ⟨comparison, hc, h⟩ := bind_eq_ok.1 h
  obtain ⟨change, hd, h⟩ := bind_eq_ok.1 h
  obtain ⟨percent, hp, h⟩ := bind_eq_ok.1 h
  cases h
  exact ⟨value, comparison, change, percent, hv, hc, hd, hp, rfl⟩

theorem formatRow_order {compared : Bool} (h : formatRow rules compared row = .ok shown) :
    shown.order = row.order := by
  cases compared with
  | false =>
    obtain ⟨value, -, rfl⟩ := formatRow_alone_eq_ok h
    rfl
  | true =>
    obtain ⟨value, comparison, change, percent, -, -, -, -, rfl⟩ := formatRow_compared_eq_ok h
    rfl

end Display

/-- Whether a row of two columns joins the rows of the one and of the other. -/
structure Row.Joins (base other both : Row) : Prop where
  order : both.order = base.order
  label : both.label = base.label
  type : both.type = base.type
  indent : both.indent = base.indent
  style : both.style = base.style
  format : both.format = base.format
  metadata : both.metadata = base.metadata
  value : both.value = base.value
  comparison : both.comparison = other.value
  derived : Variance.derive both.value both.comparison = .ok (both.change, both.changePercent)
  changePercent : both.changePercent = none ↔
    both.value = none ∨ both.comparison = none ∨ ∃ b, both.value = some b ∧ b.isZero = true
  texts : ∃ value comparison change percent,
    base.formatted = [("value", value)] ∧ other.formatted = [("value", comparison)] ∧
    both.formatted = [("value", value), ("comparison_value", comparison),
      ("variance_amount", change), ("variance_percent", percent)]
  spacer : both.type = .spacer → both.comparison = none ∧ both.change = none ∧
    both.changePercent = none ∧ ∀ f ∈ both.formatted, f.2 = ""

theorem Content.eq_spacer_of_type {c : Content} (h : c.type = .spacer) : c = .spacer := by
  cases c <;> first | rfl | cases h

/-- A row is compared with the row of the same item. For a spacer neither has a value. -/
theorem Row.IsOf.compared {item : Item} {row₁ row₂ compared : Row} {others : List Row}
    (h₁ : row₁.IsOf item) (h₂ : row₂.IsOf item)
    (hv : Variance.valueAt? others row₁.order = some row₂.value)
    (hc : Variance.compareRow others row₁ = .ok compared) :
    ∃ change percent, Variance.derive row₁.value row₂.value = .ok (change, percent) ∧
      compared = { row₁ with comparison := row₂.value, change, changePercent := percent } := by
  rcases Variance.compareRow_eq_ok hc with ⟨hs, rfl⟩ | ⟨-, change, percent, hd, rfl⟩
  · obtain ⟨a₁, rfl, hn₁⟩ := h₁
    obtain ⟨a₂, rfl, hn₂⟩ := h₂
    have hitem : item.content = .spacer := Content.eq_spacer_of_type hs
    obtain rfl := hn₁ hitem
    obtain rfl := hn₂ hitem
    exact ⟨none, none, rfl, rfl⟩
  · rw [hv] at hd ⊢
    exact ⟨change, percent, hd, rfl⟩

/-- The rows of an item in two columns, compared and displayed, join those displayed alone. -/
theorem Row.IsOf.joins {item : Item} {row₁ row₂ compared base other both : Row}
    {others : List Row} {rules : FormattingRules} (h₁ : row₁.IsOf item) (h₂ : row₂.IsOf item)
    (hv : Variance.valueAt? others row₁.order = some row₂.value)
    (hc : Variance.compareRow others row₁ = .ok compared)
    (hbase : Display.formatRow rules false row₁ = .ok base)
    (hother : Display.formatRow rules false row₂ = .ok other)
    (hboth : Display.formatRow rules true compared = .ok both) : Joins base other both := by
  obtain ⟨change, percent, hd, rfl⟩ := h₁.compared h₂ hv hc
  obtain ⟨a₁, rfl, hs₁⟩ := h₁
  obtain ⟨a₂, rfl, hs₂⟩ := h₂
  obtain ⟨value, ht₁, rfl⟩ := Display.formatRow_alone_eq_ok hbase
  obtain ⟨value', ht₂, rfl⟩ := Display.formatRow_alone_eq_ok hother
  obtain ⟨shown, comparison, textChange, textPercent, hb, hcmp, htc, htp, rfl⟩ :=
    Display.formatRow_compared_eq_ok hboth
  obtain rfl : value = shown := Except.ok.inj (ht₁.symm.trans hb)
  obtain rfl : value' = comparison := Except.ok.inj (ht₂.symm.trans hcmp)
  refine ⟨rfl, rfl, rfl, rfl, rfl, rfl, rfl, rfl, rfl, hd,
    Variance.changePercent_eq_none_iff hd, ⟨_, _, _, _, rfl, rfl, rfl⟩, fun hs => ?_⟩
  have hitem : item.content = .spacer := Content.eq_spacer_of_type hs
  obtain rfl := hs₁ hitem
  obtain rfl := hs₂ hitem
  cases hd
  -- no value has a text, so all four are blank
  cases ht₁
  cases ht₂
  cases htc
  cases htp
  refine ⟨rfl, rfl, rfl, fun f hf => ?_⟩
  simp only [List.mem_cons, List.not_mem_nil, or_false] at hf
  rcases hf with rfl | rfl | rfl | rfl <;> rfl

namespace IsColumnOf
variable {items : List Item} {rows others compared base other both shown : List Row}
  {rules : FormattingRules}

theorem displayed_orders (h : IsColumnOf items rows) {withChange : Bool}
    (hs : rows.mapM (Display.formatRow rules withChange) = .ok shown) :
    shown.map Row.order = items.map Item.order := by
  have hkept : ∀ row text, Display.formatRow rules withChange row = .ok text →
      text.order = row.order := fun _ _ => Display.formatRow_order
  exact (map_eq_of_forall₂ hkept (forall₂_of_mapM_eq_ok hs)).trans h.orders

theorem compared_orders (h : IsColumnOf items rows)
    (hc : rows.mapM (Variance.compareRow others) = .ok compared)
    (hs : compared.mapM (Display.formatRow rules true) = .ok shown) :
    shown.map Row.order = items.map Item.order := by
  have hkept : ∀ row joined, Variance.compareRow others row = .ok joined →
      joined.order = row.order := fun _ _ => Variance.compareRow_order
  have hkept' : ∀ row text, Display.formatRow rules true row = .ok text →
      text.order = row.order := fun _ _ => Display.formatRow_order
  exact (map_eq_of_forall₂ hkept' (forall₂_of_mapM_eq_ok hs)).trans
    ((map_eq_of_forall₂ hkept (forall₂_of_mapM_eq_ok hc)).trans h.orders)

/-- Two columns of the same items, compared and displayed, join those displayed alone. -/
theorem joins (hn : (items.map Item.order).Nodup) (h : IsColumnOf items rows)
    (h' : IsColumnOf items others) (hc : rows.mapM (Variance.compareRow others) = .ok compared)
    (hbase : rows.mapM (Display.formatRow rules false) = .ok base)
    (hother : others.mapM (Display.formatRow rules false) = .ok other)
    (hboth : compared.mapM (Display.formatRow rules true) = .ok both) :
    ∀ a ∈ base, ∀ b ∈ other, ∀ c ∈ both, a.order = c.order → b.order = c.order →
      Row.Joins a b c := by
  intro a ha b hb c hmem hac hbc
  obtain ⟨row, hrow, ha⟩ := exists_of_mem_mapM hbase a ha
  obtain ⟨row₂, hrow₂, hb⟩ := exists_of_mem_mapM hother b hb
  obtain ⟨m, hm, hboth⟩ := exists_of_mem_mapM hboth c hmem
  obtain ⟨row', hrow', hm⟩ := exists_of_mem_mapM hc m hm
  have hoa : a.order = row.order := Display.formatRow_order ha
  have hob : b.order = row₂.order := Display.formatRow_order hb
  have hoc : c.order = row'.order :=
    (Display.formatRow_order hboth).trans (Variance.compareRow_order hm)
  -- the row that is compared is the row displayed alone, since it has its order
  obtain rfl : row = row' := List.inj_on_of_nodup_map (h.orders ▸ hn) hrow hrow'
    (hoa.symm.trans (hac.trans hoc))
  have ho : row.order = row₂.order := by rw [← hoc, ← hbc, hob]
  obtain ⟨item, hitem, hi⟩ := h.exists_item row hrow
  obtain ⟨item₂, hitem₂, hi₂⟩ := h'.exists_item row₂ hrow₂
  obtain rfl := List.inj_on_of_nodup_map hn hitem hitem₂
    (hi.order.symm.trans (ho.trans hi₂.order))
  have hv : Variance.valueAt? others row.order = some row₂.value := by
    rw [ho]
    exact Variance.valueAt?_of_mem (h'.orders ▸ hn) hrow₂
  exact hi.joins hi₂ hv hm ha hb hboth

end IsColumnOf

namespace Engine
variable {e : Engine} {r : Report} {d : Dataset} {s : Selector}

theorem exists_of_answer {q : Request} {rows : List Row} (h : e.answer q = .ok rows) :
    ∃ r, q.report.read = .ok r ∧ r.check.outcome = .ok () := by
  obtain ⟨r, hr, h⟩ := bind_eq_ok.1 h
  rw [evaluate, Logged.outcome_bind] at h
  obtain ⟨⟨⟩, hc, -⟩ := bind_eq_ok.1 h
  exact ⟨r, hr, hc⟩

theorem column_of_answer {given : Report.Given} {shown : List Row} (hr : given.read = .ok r)
    (hc : r.check.outcome = .ok ()) (h : e.answer ⟨given, d, s, none⟩ = .ok shown) :
    ∃ rows, (e.column r d s).outcome = .ok rows ∧
      rows.mapM (Display.formatRow (r.formatting.getD e.rules) false) = .ok shown := by
  rw [answer_eq hr hc] at h
  obtain ⟨rows, hrows, h⟩ := bind_eq_ok.1 h
  unfold unformatted at hrows
  rw [Logged.outcome_bind] at hrows
  obtain ⟨rows', hcolumn, hrows⟩ := bind_eq_ok.1 hrows
  cases hrows
  exact ⟨_, hcolumn, h⟩

/-- What is answered for two selections is the column of the first compared with that of the second,
displayed. -/
theorem columns_of_answer {given : Report.Given} {shown : List Row} {s' : Selector}
    (hr : given.read = .ok r) (hc : r.check.outcome = .ok ())
    (h : e.answer ⟨given, d, s, some s'⟩ = .ok shown) :
    ∃ rows others compared, (e.column r d s).outcome = .ok rows ∧
      (e.column r d s').outcome = .ok others ∧
      rows.mapM (Variance.compareRow others) = .ok compared ∧
      compared.mapM (Display.formatRow (r.formatting.getD e.rules) true) = .ok shown := by
  rw [answer_eq hr hc] at h
  obtain ⟨compared, hcompared, h⟩ := bind_eq_ok.1 h
  unfold unformatted Engine.compared at hcompared
  rw [Logged.outcome_bind] at hcompared
  obtain ⟨rows, hcolumn, hcompared⟩ := bind_eq_ok.1 hcompared
  rw [Logged.outcome_bind] at hcompared
  obtain ⟨others, hothers, hcompared⟩ := bind_eq_ok.1 hcompared
  exact ⟨rows, others, compared, hcolumn, hothers, Variance.mapM_of_apply hcompared, h⟩

/-- What is answered for two selections joins what is answered for each of them: the rows have the
same orders, and rows of one order join. -/
theorem answer_joins (e : Engine) (given : Report.Given) (d : Dataset) (s₁ s₂ : Selector)
    (base other both : List Row) (h₁ : e.answer ⟨given, d, s₁, none⟩ = .ok base)
    (h₂ : e.answer ⟨given, d, s₂, none⟩ = .ok other)
    (h : e.answer ⟨given, d, s₁, some s₂⟩ = .ok both) :
    both.map Row.order = base.map Row.order ∧ other.map Row.order = base.map Row.order ∧
    (base.map Row.order).Pairwise (· < ·) ∧
    ∀ a ∈ base, ∀ b ∈ other, ∀ c ∈ both, a.order = c.order → b.order = c.order →
      Row.Joins a b c := by
  obtain ⟨r, hr, hc⟩ := exists_of_answer h
  have hsound := Report.sound_of_issues (Report.issues_of_check hc)
  obtain ⟨rows, hrows, hbase⟩ := column_of_answer hr hc h₁
  obtain ⟨others, hothers, hother⟩ := column_of_answer hr hc h₂
  obtain ⟨rows', others', compared, hrows', hothers', hcompared, hboth⟩ := columns_of_answer hr hc h
  obtain rfl : rows = rows' := Except.ok.inj (hrows.symm.trans hrows')
  obtain rfl : others = others' := Except.ok.inj (hothers.symm.trans hothers')
  have hcol := isColumnOf_of_column hrows
  have hcol' := isColumnOf_of_column hothers
  have hob := hcol.displayed_orders hbase
  refine ⟨(hcol.compared_orders hcompared hboth).trans hob.symm,
    (hcol'.displayed_orders hother).trans hob.symm, ?_,
    hcol.joins hsound.nodup_sortedLayout hcol' hcompared hbase hother hboth⟩
  rw [hob]
  exact List.pairwise_map.2 hsound.sorted

def drawer : Report :=
  { vault with layout := vault.layout ++ [⟨20, none, none, none, 0, .spacer⟩] }

theorem check_drawer : drawer.check.outcome = .ok () := by cbv

def till : Dataset := ⟨[cash 80.0, .ofFields (some (.real 100.0)) 2025 1 fun _ => .null], "till"⟩

def drawerRows (x : Float) : List Row :=
  [depositRow x, Row.ofItem ⟨20, none, none, none, 0, .spacer⟩ none]

theorem rows_drawer {m : Movement} {x : Float} (hm : m.amount = some (.real x)) :
    drawer.rows [] [m] = .ok (drawerRows x) := by
  have hi := Report.issues_of_check check_drawer
  have hsol : Layout.Solves drawer.sortedLayout [] [m]
      fun n => if n = 10 then some (0.0 + x) else none := by
    intro item hitem
    have hitem := Report.mem_sortedLayout.1 hitem
    simp only [drawer, vault, List.cons_append, List.nil_append, List.mem_cons, List.not_mem_nil,
      or_false] at hitem
    rcases hitem with rfl | rfl
    · refine ⟨[], rfl, ?_⟩
      change Aggregate.sum.apply [m.amount] = _
      rw [hm]
      exact Aggregate.apply_sum [some x]
    · rfl
  have hsort : drawer.sortedLayout = drawer.layout := List.mergeSort_of_pairwise (by decide)
  rw [(Report.sound_of_issues hi).rows_eq ((Report.check_ok_iff hi).1 check_drawer) nofun hsol,
    hsort]
  rfl

theorem column_drawer {s : Selector} {m : Movement} {x : Float}
    (hs : (s.restrict plain.resolver.policy till).outcome = .ok [m])
    (hm : m.amount = some (.real x)) :
    (plain.column drawer till s).outcome = .ok (drawerRows x) := by
  unfold column
  rw [Logged.outcome_bind, hs]
  change (plain.resolver.resolveAll drawer.measures [m] >>= fun values =>
    Logged.ofExcept (drawer.rows values [m])).outcome = _
  rw [Logged.outcome_bind, Resolver.resolveAll_outcome]
  exact rows_drawer hm

theorem unformatted_drawer :
    (plain.unformatted drawer ⟨.report drawer, till, .year 2024, some (.year 2025)⟩).outcome =
      (Variance.apply (drawerRows 80.0) (drawerRows 100.0)).outcome := by
  unfold unformatted
  rw [Logged.outcome_bind, column_drawer rfl rfl]
  change (plain.compared drawer till (drawerRows 80.0) (some (.year 2025))).outcome = _
  unfold compared
  rw [Logged.outcome_bind, column_drawer rfl rfl]
  rfl

theorem answer_joins_drawer : ∃ base other both,
    plain.answer ⟨.report drawer, till, .year 2024, none⟩ = .ok base ∧
    plain.answer ⟨.report drawer, till, .year 2025, none⟩ = .ok other ∧
    plain.answer ⟨.report drawer, till, .year 2024, some (.year 2025)⟩ = .ok both ∧
    both.map Row.order = base.map Row.order ∧ other.map Row.order = base.map Row.order ∧
    ∀ a ∈ base, ∀ b ∈ other, ∀ c ∈ both, a.order = c.order → b.order = c.order →
      Row.Joins a b c := by
  have hbase : ∃ base, plain.answer ⟨.report drawer, till, .year 2024, none⟩ = .ok base := by
    rw [answer_eq rfl check_drawer, unformatted, Logged.outcome_bind, column_drawer rfl rfl]
    exact exists_of_isOk (by decide +kernel)
  have hother : ∃ other, plain.answer ⟨.report drawer, till, .year 2025, none⟩ = .ok other := by
    rw [answer_eq rfl check_drawer, unformatted, Logged.outcome_bind, column_drawer rfl rfl]
    exact exists_of_isOk (by decide +kernel)
  have hboth : ∃ both,
      plain.answer ⟨.report drawer, till, .year 2024, some (.year 2025)⟩ = .ok both := by
    rw [answer_eq rfl check_drawer, unformatted_drawer]
    exact exists_of_isOk (by decide +kernel)
  obtain ⟨base, hbase⟩ := hbase
  obtain ⟨other, hother⟩ := hother
  obtain ⟨both, hboth⟩ := hboth
  obtain ⟨ho, ho', -, hj⟩ := answer_joins plain _ _ _ _ base other both hbase hother hboth
  exact ⟨base, other, both, hbase, hother, hboth, ho, ho', hj⟩

end Engine
end LedgerReport
