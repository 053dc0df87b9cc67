-- The law of the listings: the pages of a listing make up the collection where
-- each row parses and no two rows of one `created_at` lie on either side of the end
-- of a page.
import CortexRag.SortedPages
import CortexRag.StoredRows

open keyed_rows json_values related_lists sorted_pages

namespace cortex_rag.migrations.paging

/-! ## The rows of a listing -/

section Rows

variable {α : Type} (id : α → UUID) (created_at : α → DateTime)

/-- `ORDER BY created_at DESC`. -/
def newest_first (a b : α) : Bool := (created_at b).le (created_at a)

/-- The times of the rows, the newest first. -/
def times (rows : List α) : List DateTime :=
  (rows.map created_at).insertionSort (fun a b => b.le a)

/-- No page but the last ends with a row of the same time as the next row. -/
def Aligned (limit : Nat) (rows : List α) : Prop :=
  ∀ k, 0 < k → k * limit < rows.length →
    (times created_at rows)[k * limit - 1]? ≠ (times created_at rows)[k * limit]?

/-- The rows of all pages, where `orders` gives the order of each query. -/
def row_pages (orders : Nat → RowOrder) (limit : Nat) (rows : List α) : List α :=
  pages limit (fun k => ordered (newest_first created_at) (orders k) id rows)
    (count rows.length limit)

/-- Every row comes exactly once, the newest first. -/
structure Partition (rows paged : List α) : Prop where
  once : (paged.map id).Perm (rows.map id)
  newest_first : paged.Pairwise (fun a b => newest_first created_at a b = true)

variable {rows : List α} {limit : Nat}

theorem newest_first_total (a b : α) :
    newest_first created_at a b = true ∨ newest_first created_at b a = true :=
  DateTime.le_total (created_at b) (created_at a)

theorem newest_first_trans (a b c : α) (h : newest_first created_at a b = true)
    (h' : newest_first created_at b c = true) : newest_first created_at a c = true :=
  DateTime.le_trans h' h

/-- What the sort of a query decides. -/
theorem ordered_pairwise (order : RowOrder) (rows : List α) :
    (ordered (newest_first created_at) order id rows).Pairwise (fun a b =>
      ((newest_first created_at a b && !newest_first created_at b a) ||
        (newest_first created_at a b && order.le (id a) (id b))) = true) := by
  obtain ⟨_, _⟩ := ordered_order order id (newest_first_total created_at)
    (newest_first_trans created_at)
  exact List.pairwise_insertionSort _ rows

theorem ordered_newest_first (order : RowOrder) (rows : List α) :
    (ordered (newest_first created_at) order id rows).Pairwise
      (fun a b => newest_first created_at a b = true) := by
  refine (ordered_pairwise id created_at order rows).imp ?_
  intro a b h
  grind

/-- In every order the rows have the same times. -/
theorem times_of_ordered (order : RowOrder) (rows : List α) :
    (ordered (newest_first created_at) order id rows).map created_at = times created_at rows := by
  have : Std.Total (fun a b : DateTime => b.le a = true) := ⟨fun a b => DateTime.le_total b a⟩
  have : IsTrans DateTime (fun a b => b.le a = true) := ⟨fun _ _ _ h h' => DateTime.le_trans h' h⟩
  have hperm : ((ordered (newest_first created_at) order id rows).map created_at).Perm
      (times created_at rows) :=
    ((perm_ordered _ _ _ _).map created_at).trans (List.perm_insertionSort _ _).symm
  have hsorted : ((ordered (newest_first created_at) order id rows).map created_at).Pairwise
      (fun a b => b.le a = true) :=
    List.pairwise_map.mpr (ordered_newest_first id created_at order rows)
  exact hperm.eq_of_pairwise (fun a b _ _ h h' => DateTime.le_antisymm h' h) hsorted
    (List.pairwise_insertionSort _ _)

variable {id created_at}

/-- The end of a page is a cut where the times on either side of it differ. -/
theorem cut_of_aligned (h : Aligned created_at limit rows) (order : RowOrder) (k : Nat) :
    CutAt (fun a b => newest_first created_at a b = true) (k * limit)
      (ordered (newest_first created_at) order id rows) := by
  intro a ha b hb hba
  have hsorted := ordered_newest_first id created_at order rows
  have htimes := times_of_ordered id created_at order rows
  have hlength : (ordered (newest_first created_at) order id rows).length = rows.length :=
    (perm_ordered _ _ _ _).length_eq
  generalize ordered (newest_first created_at) order id rows = s at ha hb hsorted htimes hlength
  obtain ⟨i, hi, rfl⟩ := List.mem_iff_getElem.mp ha
  obtain ⟨j, hj, rfl⟩ := List.mem_iff_getElem.mp hb
  have hi' : i < min (k * limit) s.length := by simpa only [List.length_take] using hi
  have hj' : j < s.length - k * limit := by simpa only [List.length_drop] using hj
  rw [List.getElem_take, List.getElem_drop] at hba
  have hget : ∀ m : Nat, (times created_at rows)[m]? = s[m]?.map created_at := by
    intro m
    rw [← htimes, List.getElem?_map]
  have hle : ∀ m n (hm : m < s.length) (hn : n < s.length), m ≤ n →
      newest_first created_at s[m] s[n] = true := by
    intro m n hm hn hmn
    rcases Nat.eq_or_lt_of_le hmn with rfl | hlt
    · exact (newest_first_total created_at s[m] s[m]).elim (fun h => h) (fun h => h)
    · exact List.pairwise_iff_getElem.mp hsorted m n hm hn hlt
  -- between the two stand the last row of the page and the next row
  refine h k (Nat.pos_of_ne_zero (by rintro rfl; simp at hi')) (by omega) ?_
  rw [hget, hget, List.getElem?_eq_getElem (by omega), List.getElem?_eq_getElem (by omega)]
  simp only [Option.map_some, Option.some.injEq]
  have hnext := hle (k * limit - 1) (k * limit) (by omega) (by omega) (by omega)
  have hfirst := hle i (k * limit - 1) (by omega) (by omega) (by omega)
  have hlast := hle (k * limit) (k * limit + j) (by omega) (by omega) (by omega)
  exact DateTime.le_antisymm (DateTime.le_trans hfirst (DateTime.le_trans hba hlast)) hnext

/-- The rows of the pages, where the pages make up the collection. -/
theorem partition_of_aligned (hlimit : 0 < limit) (hkeyed : Keyed id rows)
    (h : Aligned created_at limit rows) (orders : Nat → RowOrder) :
    Partition id created_at rows (row_pages id created_at orders limit rows) := by
  obtain ⟨hperm, hsorted⟩ := pages_of_cuts (List.Nodup.of_map _ hkeyed)
    (fun k => perm_ordered (newest_first created_at) (orders k) id rows)
    (fun k => ordered_newest_first id created_at (orders k) rows)
    (fun n => cut_of_aligned h (orders 0) n) (count rows.length limit)
  refine ⟨?_, hsorted⟩
  have hall : (ordered (newest_first created_at) (orders 0) id rows).length ≤
      count rows.length limit * limit := by
    rw [(perm_ordered _ _ _ _).length_eq]
    exact le_count_mul hlimit
  rw [List.take_of_length_le hall] at hperm
  exact (hperm.trans (perm_ordered _ _ _ _)).map id

/-- Where the pages make up the collection in every order, two orders put the
same rows before the end of a page: a query may be the first to see the other one. -/
theorem take_ids_perm (hlimit : 0 < limit)
    (h : ∀ orders, Partition id created_at rows (row_pages id created_at orders limit rows))
    {k : Nat} (hlt : k * limit < rows.length) (order order' : RowOrder) :
    (((ordered (newest_first created_at) order id rows).take (k * limit)).map id).Perm
      (((ordered (newest_first created_at) order' id rows).take (k * limit)).map id) := by
  have hpages := (h (fun i => if i < k then order else order')).once
  have hperm' := (perm_ordered (newest_first created_at) order' id rows).symm.map id
  have hlength : (ordered (newest_first created_at) order' id rows).length = rows.length :=
    (perm_ordered _ _ _ _).length_eq
  unfold row_pages at hpages
  simp only [apply_ite (fun order => ordered (newest_first created_at) order id rows)] at hpages
  generalize ordered (newest_first created_at) order id rows = s at hpages
  generalize ordered (newest_first created_at) order' id rows = s' at hpages hperm' hlength
  obtain ⟨m, hm⟩ := Nat.exists_eq_add_of_lt (lt_count hlimit hlt)
  have hswitch := pages_switch s s' limit k (m + 1)
  rw [← Nat.add_assoc, ← hm, List.drop_eq_nil_of_le (hlength ▸ le_count_mul hlimit),
    List.append_nil] at hswitch
  rw [hswitch] at hpages
  have hall := hpages.trans hperm'
  rw [← List.take_append_drop (k * limit) s', List.map_append, List.map_append,
    List.take_append_drop, List.perm_append_right_iff] at hall
  exact hall

/-- The order in which one row comes last among those of its time. -/
def last_of_ties (last : UUID) : RowOrder := fun row => if row = last then 1 else 0

/-- Where two rows of one time stand on either side of the end of a page, another
order in the queries from that page on shows one of the two twice. -/
theorem aligned_of_partition (hlimit : 0 < limit) (hkeyed : Keyed id rows)
    (h : ∀ orders, Partition id created_at rows (row_pages id created_at orders limit rows)) :
    Aligned created_at limit rows := by
  intro k hk hlt htie
  have hpos : 0 < k * limit := Nat.mul_pos hk hlimit
  have htake := fun later => take_ids_perm hlimit h hlt (fun _ => 0) later
  have hlength : (ordered (newest_first created_at) (fun _ => 0) id rows).length = rows.length :=
    (perm_ordered _ _ _ _).length_eq
  have htimes := times_of_ordered id created_at (fun _ => 0) rows
  have hrows := perm_ordered (newest_first created_at) (fun _ => 0) id rows
  generalize ordered (newest_first created_at) (fun _ => 0) id rows = s at *
  have hnodup : (s.map id).Nodup := (hrows.map id).nodup_iff.mpr hkeyed
  -- the last row of page `k - 1` and the first of page `k` in this order
  have hi : k * limit - 1 < s.length := by omega
  have hj : k * limit < s.length := by omega
  rw [← htimes, List.getElem?_map, List.getElem?_map, List.getElem?_eq_getElem hi,
    List.getElem?_eq_getElem hj] at htie
  simp only [Option.map_some, Option.some.injEq] at htie
  have hx : s[k * limit - 1] ∈ s.take (k * limit) :=
    List.mem_take_iff_getElem.mpr ⟨k * limit - 1, by omega, rfl⟩
  have hy : s[k * limit] ∈ s.drop (k * limit) :=
    List.mem_drop_iff_getElem.mpr ⟨0, by omega, rfl⟩
  generalize s[k * limit - 1] = x at htie hx
  generalize s[k * limit] = y at htie hy
  rw [← List.take_append_drop (k * limit) s, List.map_append, List.nodup_append] at hnodup
  have hxy : id x ≠ id y :=
    hnodup.2.2 _ (List.mem_map_of_mem hx) _ (List.mem_map_of_mem hy)
  -- in the order where `x` comes after `y`, `x` is still before the end of the page
  have hperm := htake (last_of_ties (id x))
  have hsorted := ordered_pairwise id created_at (last_of_ties (id x)) rows
  have hrows' := perm_ordered (newest_first created_at) (last_of_ties (id x)) id rows
  generalize ordered (newest_first created_at) (last_of_ties (id x)) id rows = s' at *
  have hkeyed' : Keyed id s' := (hrows'.map id).nodup_iff.mpr hkeyed
  obtain ⟨x', hx', hxid⟩ := List.mem_map.mp (hperm.mem_iff.mp (List.mem_map_of_mem hx))
  have hmem : ∀ r ∈ s, r ∈ s' := fun r hr => hrows'.mem_iff.mpr (hrows.mem_iff.mp hr)
  obtain rfl : x' = x :=
    eq_of_key id hkeyed' (List.mem_of_mem_take hx') (hmem x (List.mem_of_mem_take hx)) hxid
  have hy' : y ∈ s'.drop (k * limit) := by
    have hys := hmem y (List.mem_of_mem_drop hy)
    rw [← List.take_append_drop (k * limit) s', List.mem_append] at hys
    refine hys.resolve_left (fun hbefore => ?_)
    have hback := hperm.mem_iff.mpr (List.mem_map_of_mem hbefore)
    exact hnodup.2.2 _ hback _ (List.mem_map_of_mem hy) rfl
  rw [← List.take_append_drop (k * limit) s', List.pairwise_append] at hsorted
  have hbefore := hsorted.2.2 x' hx' y hy'
  have htied : newest_first created_at y x' = true := by
    unfold newest_first
    rw [htie]
    exact (DateTime.le_total _ _).elim (fun h => h) (fun h => h)
  simp only [htied, Bool.not_true, Bool.and_false, Bool.false_or, Bool.and_eq_true, RowOrder.le,
    last_of_ties, if_true, if_neg hxy.symm, decide_eq_true_eq] at hbefore
  omega

theorem partition_iff_aligned (hlimit : 0 < limit) (hkeyed : Keyed id rows) :
    (∀ orders, Partition id created_at rows (row_pages id created_at orders limit rows)) ↔
      Aligned created_at limit rows :=
  ⟨aligned_of_partition hlimit hkeyed, partition_of_aligned hlimit hkeyed⟩

end Rows

/-! ## The pages of a client -/

section Shown

variable {α β : Type} {id : α → UUID} {created_at : α → DateTime} {read : α → Except PyException β}
  {shown_id : β → UUID} {shown_at : β → DateTime} {rows : List α}

/-- What a client sees who asks for the pages one after another: each of the
entities exactly once, the newest first, and their number as the total. -/
structure Partitioned (shown_at : β → DateTime) (entities shown : List β)
    (totals : Nat → Except PyException Nat) : Prop where
  once : shown.Perm entities
  newest_first : shown.Pairwise (fun a b => (shown_at b).le (shown_at a) = true)
  total : ∀ k, totals k = .ok entities.length

theorem mem_row_pages {orders : Nat → RowOrder} {limit : Nat} {m : α}
    (h : m ∈ row_pages id created_at orders limit rows) : m ∈ rows := by
  obtain ⟨k, _, hk⟩ := List.mem_flatMap.mp h
  exact (perm_ordered _ _ _ _).mem_iff.mp (List.mem_of_mem_drop (List.mem_of_mem_take hk))

/-- Rows that are read in another order give the same entities in another order. -/
theorem perm_of_read {rows' : List α} {entities entities' : List β} (hperm : rows'.Perm rows)
    (hread : rows.mapM read = .ok entities) (hread' : rows'.mapM read = .ok entities') :
    entities'.Perm entities := by
  have hmap : ∀ {rows : List α} {entities : List β}, rows.mapM read = .ok entities →
      entities.map .ok = rows.map read :=
    fun h => map_of_forall₂ (mapM_eq_ok.mp h) (fun _ _ hread => hread.symm)
  have hok : Function.Injective (Except.ok : β → Except PyException β) :=
    fun _ _ h => Except.ok.inj h
  rw [← List.map_perm_map_iff hok, hmap hread, hmap hread']
  exact hperm.map read

/-- A client sees entities where the pages hold rows. -/
theorem partitioned_iff (hid : ∀ m b, read m = .ok b → shown_id b = id m)
    (hat : ∀ m b, read m = .ok b → shown_at b = created_at m) {orders : Nat → RowOrder}
    {limit : Nat} (hkeyed : Keyed id rows) {entities shown : List β}
    (hentities : rows.mapM read = .ok entities)
    (hshown : (row_pages id created_at orders limit rows).mapM read = .ok shown) :
    Partitioned shown_at entities shown (fun _ => .ok rows.length) ↔
      Partition id created_at rows (row_pages id created_at orders limit rows) := by
  have hids : ∀ {rows : List α} {entities : List β}, rows.mapM read = .ok entities →
      entities.map shown_id = rows.map id :=
    fun h => map_of_forall₂ (mapM_eq_ok.mp h) hid
  have htimes := map_of_forall₂ (mapM_eq_ok.mp hshown) hat
  have hsorted : shown.Pairwise (fun a b => (shown_at b).le (shown_at a) = true) ↔
      (row_pages id created_at orders limit rows).Pairwise
        (fun a b => newest_first created_at a b = true) := by
    unfold newest_first
    rw [← List.pairwise_map (f := shown_at) (R := fun a b => b.le a = true),
      ← List.pairwise_map (f := created_at) (R := fun a b => b.le a = true), htimes]
  constructor
  · rintro ⟨honce, hnewest, _⟩
    have hperm := honce.map shown_id
    rw [hids hshown, hids hentities] at hperm
    exact ⟨hperm, hsorted.mp hnewest⟩
  · rintro ⟨honce, hnewest⟩
    have hnodup : (row_pages id created_at orders limit rows).Nodup :=
      List.Nodup.of_map id (honce.nodup_iff.mpr hkeyed)
    have hlength := honce.length_eq
    rw [List.length_map, List.length_map] at hlength
    have hperm := perm_of_subset hnodup (fun _ => mem_row_pages) (Nat.le_of_eq hlength.symm)
    refine ⟨perm_of_read hperm hentities hshown, hsorted.mpr hnewest, fun _ => ?_⟩
    rw [(mapM_eq_ok.mp hentities).length_eq]

/-- The pages of a client make up the collection in every order exactly where each row
is read and the pages hold the rows. -/
theorem all_partitioned_iff (hid : ∀ m b, read m = .ok b → shown_id b = id m)
    (hat : ∀ m b, read m = .ok b → shown_at b = created_at m) {limit : Nat} (hlimit : 0 < limit)
    (hkeyed : Keyed id rows) :
    (∀ orders, ∃ entities shown, rows.mapM read = .ok entities ∧
      (row_pages id created_at orders limit rows).mapM read = .ok shown ∧
      Partitioned shown_at entities shown (fun _ => .ok rows.length)) ↔
    (∀ m ∈ rows, ∃ b, read m = .ok b) ∧ Aligned created_at limit rows := by
  rw [← partition_iff_aligned hlimit hkeyed]
  constructor
  · intro h
    refine ⟨?_, ?_⟩
    · obtain ⟨entities, _, hentities, _⟩ := h (fun _ _ => 0)
      exact exists_forall₂.mp ⟨entities, mapM_eq_ok.mp hentities⟩
    · intro orders
      obtain ⟨entities, shown, hentities, hshown, hpartitioned⟩ := h orders
      exact (partitioned_iff hid hat hkeyed hentities hshown).mp hpartitioned
  · rintro ⟨hread, hpartition⟩ orders
    obtain ⟨entities, hentities⟩ := mapM_ok_of_forall hread
    obtain ⟨shown, hshown⟩ := mapM_ok_of_forall (fun m hm => hread m (mem_row_pages hm))
    exact ⟨entities, shown, hentities, hshown,
      (partitioned_iff hid hat hkeyed hentities hshown).mpr (hpartition orders)⟩

end Shown

section Pages

variable {α β : Type} {id : α → UUID} {created_at : α → DateTime} {read : α → Except PyException β}
  {shown_id : β → UUID} {shown_at : β → DateTime} {rows : List α} {limit : Nat}
  {list : RowOrder → Nat → Except PyException (List β × Nat)}

/-- The items on the pages at the offsets `0`, `limit`, `2 * limit` and so on up to the
total; `orders k` is the order of the query for page `k`. -/
def all_pages (list : RowOrder → Nat → Except PyException (List β × Nat)) (orders : Nat → RowOrder)
    (limit : Nat) : Except PyException (List β) := do
  let (_, total) ← list (orders 0) 0
  let shown ← (List.range (count total limit)).mapM (fun k => do
    let (items, _) ← list (orders k) (k * limit)
    return items)
  return shown.flatten

/-- The pages make up the collection that the rows hold. -/
def PagesPartition (read : α → Except PyException β) (shown_at : β → DateTime) (rows : List α)
    (list : RowOrder → Nat → Except PyException (List β × Nat)) (limit : Nat)
    (orders : Nat → RowOrder) : Prop :=
  ∃ entities shown, rows.mapM read = .ok entities ∧ all_pages list orders limit = .ok shown ∧
    Partitioned shown_at entities shown (fun k => (list (orders k) (k * limit)).map Prod.snd)

/-- The page that a query gives is what is read of its rows. -/
def Lists (read : α → Except PyException β) (id : α → UUID) (created_at : α → DateTime)
    (rows : List α) (limit : Nat) (list : RowOrder → Nat → Except PyException (List β × Nat)) :
    Prop :=
  ∀ order offset items total, list order offset = .ok (items, total) ↔
    (page limit offset (ordered (newest_first created_at) order id rows)).mapM read = .ok items ∧
      total = rows.length

theorem page_ok (hlist : Lists read id created_at rows limit list)
    (hread : ∀ m ∈ rows, ∃ b, read m = .ok b) (order : RowOrder) (offset : Nat) :
    ∃ items, list order offset = .ok (items, rows.length) := by
  have hpage : ∃ items, (page limit offset
      (ordered (newest_first created_at) order id rows)).mapM read = .ok items := by
    refine mapM_ok_of_forall ?_
    intro m hm
    exact hread m ((perm_ordered _ _ _ _).mem_iff.mp
      (List.mem_of_mem_drop (List.mem_of_mem_take hm)))
  obtain ⟨items, hitems⟩ := hpage
  exact ⟨items, (hlist ..).mpr ⟨hitems, rfl⟩⟩

/-- The pages hold what is read of their rows. -/
theorem all_pages_eq (hlist : Lists read id created_at rows limit list)
    (hread : ∀ m ∈ rows, ∃ b, read m = .ok b) (orders : Nat → RowOrder) :
    all_pages list orders limit = (row_pages id created_at orders limit rows).mapM read := by
  have hpage : ∀ k, (do
      let (items, _) ← list (orders k) (k * limit)
      return items) = (sorted_pages.page limit k
        (ordered (newest_first created_at) (orders k) id rows)).mapM read := by
    intro k
    obtain ⟨items, hitems⟩ := page_ok hlist hread (orders k) (k * limit)
    rw [hitems]
    exact ((hlist ..).mp hitems).1.symm
  obtain ⟨first, hfirst⟩ := page_ok hlist hread (orders 0) 0
  unfold all_pages row_pages pages
  rw [hfirst, mapM_flatMap]
  simp only [← hpage]
  rfl

/-- The law of one listing. -/
theorem pages_partition_iff (hlist : Lists read id created_at rows limit list)
    (hid : ∀ m b, read m = .ok b → shown_id b = id m)
    (hat : ∀ m b, read m = .ok b → shown_at b = created_at m) (hlimit : 0 < limit)
    (hkeyed : Keyed id rows) :
    (∀ orders, PagesPartition read shown_at rows list limit orders) ↔
      (∀ m ∈ rows, ∃ b, read m = .ok b) ∧ Aligned created_at limit rows := by
  rw [← all_partitioned_iff hid hat hlimit hkeyed]
  refine forall_congr' (fun orders => exists_congr (fun entities => exists_congr (fun shown =>
    and_congr_right (fun hentities => ?_))))
  have hread := exists_forall₂.mp ⟨entities, mapM_eq_ok.mp hentities⟩
  have htotals : (fun k => (list (orders k) (k * limit)).map Prod.snd) =
      fun _ => .ok rows.length := by
    funext k
    obtain ⟨items, hitems⟩ := page_ok hlist hread (orders k) (k * limit)
    rw [hitems]
    rfl
  rw [all_pages_eq hlist hread, htotals]

end Pages

/-! ## The two listings -/

section Listings

variable (read_datetime : Json → Option DateTime) (db : HeadDatabase) (tenant_id : String)

/-- The rows that a listing of documents counts. -/
def listed_documents (knowledge_space_id : Option UUID) : List KnowledgeDocumentRow :=
  db.tables.documents.filter (SqlAlchemyDocumentRepository.listed tenant_id knowledge_space_id)

/-- The rows that a listing of jobs counts. -/
def listed_jobs (document_id : Option UUID) (status : Option ProcessingJobStatus) :
    List ProcessingJobRow :=
  db.jobs.filter (SqlAlchemyProcessingJobRepository.listed tenant_id document_id status)

/-- The pages of `list_documents`, where `orders k` is the order of the query for
page `k`, make up the documents of the tenant, each with its active version. -/
def DocumentsPartitioned (knowledge_space_id : Option UUID) (limit : Nat)
    (orders : Nat → RowOrder) : Prop :=
  PagesPartition (SqlAlchemyDocumentRepository.read read_datetime db.tables)
    KnowledgeDocument.created_at (listed_documents db tenant_id knowledge_space_id)
    (fun order offset => SqlAlchemyDocumentRepository.list_documents read_datetime order db.tables
      tenant_id knowledge_space_id limit offset) limit orders

/-- The pages of `list_jobs` make up the jobs of the tenant. -/
def JobsPartitioned (document_id : Option UUID) (status : Option ProcessingJobStatus) (limit : Nat)
    (orders : Nat → RowOrder) : Prop :=
  PagesPartition to_entity ProcessingJob.created_at (listed_jobs db tenant_id document_id status)
    (fun order offset => SqlAlchemyProcessingJobRepository.list_jobs order db.jobs tenant_id
      document_id status limit offset) limit orders

variable {db} {limit : Nat}

theorem documents_partitioned_iff (hlimit : 0 < limit) (hs : Stored db.tables)
    (knowledge_space_id : Option UUID) :
    (∀ orders, DocumentsPartitioned read_datetime db tenant_id knowledge_space_id limit orders) ↔
      (∀ m ∈ listed_documents db tenant_id knowledge_space_id, Parses read_datetime db.tables m) ∧
        Aligned KnowledgeDocumentRow.created_at limit
          (listed_documents db tenant_id knowledge_space_id) := by
  have hkeyed := keyed_filter KnowledgeDocumentRow.id
    (SqlAlchemyDocumentRepository.listed tenant_id knowledge_space_id) hs.documents
  have hlist : Lists (SqlAlchemyDocumentRepository.read read_datetime db.tables)
      KnowledgeDocumentRow.id KnowledgeDocumentRow.created_at
      (listed_documents db tenant_id knowledge_space_id) limit (fun order offset =>
        SqlAlchemyDocumentRepository.list_documents read_datetime order db.tables tenant_id
          knowledge_space_id limit offset) :=
    fun order offset items total => SqlAlchemyDocumentRepository.list_documents_ok hs
  have hlaw := pages_partition_iff hlist
    (fun m d hread => (SqlAlchemyDocumentRepository.read_row hread).1)
    (fun m d hread => (SqlAlchemyDocumentRepository.read_row hread).2) hlimit hkeyed
  simp only [SqlAlchemyDocumentRepository.read_iff hs] at hlaw
  exact hlaw

theorem jobs_partitioned_iff (hlimit : 0 < limit) (hjobs : Keyed ProcessingJobRow.id db.jobs)
    (document_id : Option UUID) (status : Option ProcessingJobStatus) :
    (∀ orders, JobsPartitioned db tenant_id document_id status limit orders) ↔
      (∀ j ∈ listed_jobs db tenant_id document_id status, JobParses j) ∧
        Aligned ProcessingJobRow.created_at limit
          (listed_jobs db tenant_id document_id status) := by
  have hkeyed := keyed_filter ProcessingJobRow.id
    (SqlAlchemyProcessingJobRepository.listed tenant_id document_id status) hjobs
  have hrow : ∀ j job, to_entity j = .ok job → job.id = j.id ∧ job.created_at = j.created_at := by
    intro j job h
    obtain ⟨_, _, _, _, rfl⟩ := to_entity_ok.mp h
    exact ⟨rfl, rfl⟩
  have hlist : Lists to_entity ProcessingJobRow.id ProcessingJobRow.created_at
      (listed_jobs db tenant_id document_id status) limit (fun order offset =>
        SqlAlchemyProcessingJobRepository.list_jobs order db.jobs tenant_id document_id status
          limit offset) :=
    fun order offset items total => SqlAlchemyProcessingJobRepository.list_jobs_ok
  have hlaw := pages_partition_iff hlist (fun j job h => (hrow j job h).1)
    (fun j job h => (hrow j job h).2) hlimit hkeyed
  simp only [to_entity_iff] at hlaw
  exact hlaw

end Listings

/-! ## The law -/

/-- The pages of `list_documents` and of `list_jobs` make up the collection in
every order of the queries exactly where each matching row parses and no two of one
`created_at` stand on either side of the end of a page. -/
theorem pages_make_up_the_collection (read_datetime : Json → Option DateTime) {db : HeadDatabase}
    {limit : Nat} (hlimit : 0 < limit) (hs : Stored db.tables)
    (hjobs : Keyed ProcessingJobRow.id db.jobs) (tenant_id : String) :
    (∀ knowledge_space_id,
      (∀ orders, DocumentsPartitioned read_datetime db tenant_id knowledge_space_id limit orders) ↔
        (∀ m ∈ listed_documents db tenant_id knowledge_space_id,
          Parses read_datetime db.tables m) ∧
        Aligned KnowledgeDocumentRow.created_at limit
          (listed_documents db tenant_id knowledge_space_id)) ∧
    ∀ document_id status,
      (∀ orders, JobsPartitioned db tenant_id document_id status limit orders) ↔
        (∀ j ∈ listed_jobs db tenant_id document_id status, JobParses j) ∧
        Aligned ProcessingJobRow.created_at limit
          (listed_jobs db tenant_id document_id status) :=
  ⟨documents_partitioned_iff read_datetime tenant_id hlimit hs,
    jobs_partitioned_iff tenant_id hlimit hjobs⟩

/-- Two documents of one transaction, and so of one `created_at`. -/
def uploaded_together : HeadDatabase :=
  let document (id : UUID) : KnowledgeDocumentRow := {
    id, tenant_id := "acme", knowledge_space_id := none, title := "notes", source_type := "pdf"
    current_version_id := none, status := "uploaded", metadata := .object [], created_by := none
    deleted_at := none, created_at := noon, updated_at := noon }
  { tables := { documents := [document ⟨1⟩, document ⟨2⟩], versions := [] }, jobs := [] }

theorem stored_uploaded_together : Stored uploaded_together.tables where
  documents := by
    unfold Keyed
    decide
  versions := List.nodup_nil
  objects := fun _ hv => nomatch hv

theorem parses_uploaded_together : ∀ m ∈ uploaded_together.tables.documents,
    Parses (fun _ => none) uploaded_together.tables m := by
  intro m hm
  have hempty : ∃ metadata,
      KnowledgeMetadata.model_validate (fun _ => none) (.object []) = some metadata :=
    ⟨{}, by decide +kernel⟩
  simp only [uploaded_together, List.mem_cons, List.not_mem_nil, or_false] at hm
  rcases hm with rfl | rfl <;>
    exact ⟨⟨.Pdf, rfl⟩, ⟨.Uploaded, rfl⟩, hempty, fun _ _ h => nomatch h⟩

theorem pages_of_two_documents :
    (∀ orders, DocumentsPartitioned (fun _ => none) uploaded_together "acme" none 2 orders) ∧
      ¬ ∀ orders, DocumentsPartitioned (fun _ => none) uploaded_together "acme" none 1 orders := by
  have hlaw : ∀ limit, 0 < limit → _ := fun limit (hlimit : 0 < limit) =>
    (pages_make_up_the_collection (fun _ => none) hlimit stored_uploaded_together List.nodup_nil
      "acme").1 none
  constructor
  · refine (hlaw 2 (by decide)).mpr
      ⟨fun m hm => parses_uploaded_together m (List.mem_of_mem_filter hm), fun k hk hlt => ?_⟩
    have : k * 2 < 2 := hlt
    omega
  · intro h
    exact ((hlaw 1 (by decide)).mp h).2 1 (by decide) (by decide) (by decide)

/-- The query for the second page may put last the document that the query for
the first page put first: the client sees it twice, and never the other one. -/
theorem a_document_is_shown_twice :
    ¬ ∀ (db : HeadDatabase) (limit : Nat) (tenant_id : String) (knowledge_space_id : Option UUID)
      (orders : Nat → RowOrder), 0 < limit → Stored db.tables →
        (∀ m ∈ listed_documents db tenant_id knowledge_space_id,
          Parses (fun _ => none) db.tables m) →
        DocumentsPartitioned (fun _ => none) db tenant_id knowledge_space_id limit orders := by
  intro h
  have hparses : ∀ m ∈ listed_documents uploaded_together "acme" none,
      Parses (fun _ => none) uploaded_together.tables m :=
    fun m hm => parses_uploaded_together m (List.mem_of_mem_filter hm)
  obtain ⟨entities, shown, hentities, hshown, hpartitioned⟩ := h uploaded_together 1 "acme" none
    (fun k => if k = 0 then fun _ => 0 else last_of_ties ⟨1⟩) (by decide) stored_uploaded_together
    hparses
  have hids : ((listed_documents uploaded_together "acme" none).mapM
      (SqlAlchemyDocumentRepository.read (fun _ => none) uploaded_together.tables)).toOption.map
        (List.map KnowledgeDocument.id) = some [⟨1⟩, ⟨2⟩] := by
    decide +kernel
  have hpages : (all_pages (fun order offset => SqlAlchemyDocumentRepository.list_documents
      (fun _ => none) order uploaded_together.tables "acme" none 1 offset)
      (fun k => if k = 0 then fun _ => 0 else last_of_ties ⟨1⟩) 1).toOption.map
        (List.map KnowledgeDocument.id) = some [⟨1⟩, ⟨1⟩] := by
    decide +kernel
  rw [hentities] at hids
  rw [hshown] at hpages
  have hperm := hpartitioned.once.map KnowledgeDocument.id
  rw [Option.some.inj hids, Option.some.inj hpages] at hperm
  exact absurd hperm (by decide)

end cortex_rag.migrations.paging
