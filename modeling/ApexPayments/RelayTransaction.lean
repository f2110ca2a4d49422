import ApexPayments.Transactions

/-!
The transaction of `OutboxRelay.drain_batch`: which rows it takes and what it writes
when it commits. A drain never raises an error of its own.
-/
namespace ApexPayments.Service

open Domain Store Ledger Payments Webhooks Relay RowLocking

variable {F : Frame backend}

section Selection

theorem ensures_tryLockOutbox {β : Type} {L : Session backend} {R : Stop backend β → Prop}
    {id : Uuid} {f : Option Outbox → Program β}
    (hnone : ∀ s, F.Reads L s → (view s L.flushed).outbox.find? id = none →
      (f none).Ensures F (L.see s) R)
    (hsome : ∀ ev, (view F.hi L.flushed).outbox.find? id = some ev →
      (f (some ev)).Ensures F (L.hold (.outbox id)) R)
    (hskip : F.skips (.outbox id) → (f none).Ensures F L R) :
    (tryLockOutbox id >>= f).Ensures F L R := by
  rintro o (⟨s, hs, hn, ho⟩ | ⟨row, hrow, ho⟩ | ⟨hk, ho⟩)
  · exact hnone s hs (Option.map_eq_none_iff.mp hn) o ho
  · obtain ⟨ev, hev, rfl⟩ := Option.map_eq_some_iff.mp hrow
    exact hsome ev hev o ho
  · exact hskip hk o ho

/-- Why a drain leaves a row alone although its query found it: the row is held by
another transaction, or it is gone or published by the time it would be locked. -/
def PassedOver (F : Frame backend) (L : Session backend) (id : Uuid) : Prop :=
  F.skips (.outbox id) ∨
    (∃ s, F.Reads L s ∧ (view s L.flushed).outbox.find? id = none) ∨
    ∃ ev, (view F.hi L.flushed).outbox.find? id = some ev ∧ ev.publishedAt.isSome

/-- The rows that were locked and kept: the first ones that were not passed over. -/
structure Taken (F : Frame backend) (limit : ℕ) (ids : List Uuid) (L : Session backend)
    (evs : List Outbox) (L' : Session backend) : Prop where
  flushed : L'.flushed = L.flushed
  pending : L'.pending = L.pending
  drawn : L'.drawn = L.drawn
  current : ∀ ev ∈ evs, ev.publishedAt = none ∧
    (view F.hi L.flushed).outbox.find? ev.id = some ev
  order : ∃ passed : List Uuid, (∀ id ∈ passed, id ∈ ids ∧ PassedOver F L id) ∧
    evs.map Outbox.id = (ids.filter (fun i => i ∉ passed)).take limit

theorem filter_passed_cons {id : Uuid} {ids passed : List Uuid} (hid : id ∉ ids) :
    (id :: ids).filter (fun i => i ∉ id :: passed) = ids.filter (fun i => i ∉ passed) := by
  rw [List.filter_cons_of_neg (by simp)]
  refine List.filter_congr ?_
  intro x hx
  have hne : x ≠ id := by
    rintro rfl
    exact hid hx
  simp [hne]

theorem filter_kept_cons {id : Uuid} {ids passed : List Uuid} (hid : id ∉ passed) :
    (id :: ids).filter (fun i => i ∉ passed) = id :: ids.filter (fun i => i ∉ passed) :=
  List.filter_cons_of_pos (by simpa using hid)

/-- A row that is passed over in front of the others. -/
theorem Taken.pass {limit : ℕ} {id : Uuid} {ids : List Uuid} {L L₁ L' : Session backend}
    {evs : List Outbox} (h : Taken F limit ids L₁ evs L') (hid : id ∉ ids)
    (hpassed : PassedOver F L id) (hflushed : L₁.flushed = L.flushed)
    (hpending : L₁.pending = L.pending) (hdrawn : L₁.drawn = L.drawn)
    (hreads : ∀ s, F.Reads L₁ s → F.Reads L s) : Taken F limit (id :: ids) L evs L' := by
  refine ⟨h.flushed.trans hflushed, h.pending.trans hpending, h.drawn.trans hdrawn, ?_, ?_⟩
  · rw [← hflushed]
    exact h.current
  · obtain ⟨passed, hmem, hmap⟩ := h.order
    refine ⟨id :: passed, ?_, ?_⟩
    · intro i hi
      rcases List.mem_cons.mp hi with rfl | hi
      · exact ⟨List.mem_cons_self .., hpassed⟩
      · obtain ⟨hids, hover⟩ := hmem i hi
        refine ⟨List.mem_cons_of_mem _ hids, ?_⟩
        unfold PassedOver at hover ⊢
        rw [← hflushed]
        rcases hover with hk | ⟨s, hs, hn⟩ | hpub
        · exact Or.inl hk
        · exact Or.inr (Or.inl ⟨s, hreads s hs, hn⟩)
        · exact Or.inr (Or.inr hpub)
    · rw [hmap, filter_passed_cons hid]

theorem reads_of_see {L : Session backend} {s t : Database} (h : F.Reads (L.see s) t) :
    F.Reads L t :=
  ⟨h.1, fun u hu => h.2 u (List.mem_cons_of_mem _ hu)⟩

theorem lockUnpublished_ensures (limit : ℕ) (ids : List Uuid) (L : Session backend)
    (hids : ids.Nodup) :
    (lockUnpublished limit ids).Ensures F L (Stop.Ends (fun _ _ => False)
      (Taken F limit ids L)) := by
  induction ids generalizing limit L with
  | nil =>
    unfold lockUnpublished
    exact Prog.Ensures.pure ⟨rfl, rfl, rfl, by simp, [], by simp⟩
  | cons id ids ih =>
    obtain ⟨hid, hids⟩ := List.nodup_cons.mp hids
    cases limit with
    | zero =>
      unfold lockUnpublished
      exact Prog.Ensures.pure ⟨rfl, rfl, rfl, by simp, [], by simp⟩
    | succ limit =>
      unfold lockUnpublished
      refine ensures_tryLockOutbox ?_ ?_ ?_
      · intro s hs hnone
        refine (ih (limit + 1) (L.see s) hids).ends (fun _ _ h => h) ?_
        intro evs L' h
        exact h.pass hid (Or.inr (Or.inl ⟨s, hs, hnone⟩)) rfl rfl rfl fun _ => reads_of_see
      · intro ev hev
        have hevid : ev.id = id := Table.key_of_find? hev
        dsimp only
        split
        · rename_i hnew
          refine Prog.Ensures.bind (ih limit (L.hold (.outbox id)) hids) (fun _ _ h => h) ?_
          intro evs L' h
          obtain ⟨passed, hmem, hmap⟩ := h.order
          refine Prog.Ensures.pure ⟨h.flushed, h.pending, h.drawn, ?_, passed, ?_, ?_⟩
          · intro ev' hev'
            rcases List.mem_cons.mp hev' with rfl | hev'
            · rw [hevid]
              exact ⟨Option.isNone_iff_eq_none.mp hnew, hev⟩
            · exact h.current ev' hev'
          · intro i hi
            exact ⟨List.mem_cons_of_mem _ (hmem i hi).1, (hmem i hi).2⟩
          · have hnot : id ∉ passed := fun hp => hid (hmem id hp).1
            rw [filter_kept_cons hnot, List.map_cons, hmap, hevid]
            rfl
        · rename_i hpub
          refine (ih (limit + 1) (L.hold (.outbox id)) hids).ends (fun _ _ h => h) ?_
          intro evs L' h
          refine h.pass hid (Or.inr (Or.inr ⟨ev, hev, ?_⟩)) rfl rfl rfl fun _ hs => hs
          simpa [Option.isSome_iff_ne_none] using hpub
      · intro hk
        refine (ih (limit + 1) L hids).ends (fun _ _ h => h) ?_
        intro evs L' h
        exact h.pass hid (Or.inl hk) rfl rfl rfl fun _ hs => hs

section Order

variable {found : List Outbox} {order : List Uuid}

theorem byCreation_perm (hfound : (found.map Outbox.id).Nodup)
    (horder : order.Perm (found.map Outbox.id)) : (byCreation found order).Perm found := by
  have hself : ∀ ev ∈ found, (found.find? fun x => x.id = ev.id) = some ev := fun ev hev =>
    Table.find?_of_mem (t := (⟨found, hfound⟩ : Table Outbox.id)) hev
  refine (List.perm_insertionSort _ _).trans ((horder.filterMap _).trans ?_)
  have hall : found.filterMap ((fun id => found.find? fun x => x.id = id) ∘ Outbox.id) =
      found.filterMap some := List.filterMap_congr hself
  rw [List.filterMap_map, hall, List.filterMap_some]

theorem byCreation_sorted (found : List Outbox) (order : List Uuid) :
    (byCreation found order).Pairwise fun ev ev' => ev.createdAt ≤ ev'.createdAt := by
  have htrans : IsTrans Outbox fun ev ev' => ev.createdAt ≤ ev'.createdAt :=
    ⟨fun _ _ _ => le_trans⟩
  have htotal : Std.Total fun ev ev' : Outbox => ev.createdAt ≤ ev'.createdAt :=
    ⟨fun _ _ => le_total _ _⟩
  exact List.pairwise_insertionSort _ _

theorem unpublished_nodup (s : Database) : ((unpublished s).map Outbox.id).Nodup :=
  s.outbox.nodup.sublist (List.filter_sublist.map _)

end Order

/-- The rows that the query of a drain takes, from a store `s` that it sees. -/
structure Drawn (F : Frame backend) (batchSize : ℕ) (s : Database) (order : List Uuid)
    (evs : List Outbox) : Prop where
  sees : F.Sees s
  scanned : order.Perm ((unpublished s).map Outbox.id)
  current : ∀ ev ∈ evs, ev.publishedAt = none ∧ F.hi.outbox.find? ev.id = some ev
  taken : ∃ passed : List Uuid,
    (∀ id ∈ passed, PassedOver F ((Session.fresh backend).see s) id) ∧
      evs.map Outbox.id = (((byCreation (unpublished s) order).map Outbox.id).filter
        fun i => i ∉ passed).take batchSize

theorem selectUnpublished_ensures (batchSize : ℕ) :
    (selectUnpublished batchSize).Ensures F (.fresh backend) (Stop.Ends (fun _ _ => False)
      fun evs L => (∃ s order, Drawn F batchSize s order evs) ∧ L.flushed = [] ∧
        L.pending = [] ∧ L.drawn = []) := by
  unfold selectUnpublished
  refine Prog.Ensures.select ?_
  intro s hs
  refine Prog.Ensures.askFor ?_
  rintro ⟨order, hperm⟩
  have hids : ((byCreation (unpublished s) order).map Outbox.id).Nodup :=
    ((byCreation_perm (unpublished_nodup s) hperm).map Outbox.id).nodup_iff.mpr
      (unpublished_nodup s)
  refine (lockUnpublished_ensures batchSize _ _ hids).ends (fun _ _ h => h) ?_
  intro evs L h
  obtain ⟨passed, hmem, hmap⟩ := h.order
  exact ⟨⟨s, order, hs.1, hperm, h.current, passed, fun id hid => (hmem id hid).2, hmap⟩,
    h.flushed, h.pending, h.drawn⟩

end Selection

section Drain

/-- The commit of a drain. -/
structure Drains (F : Frame backend) (batchSize : ℕ) (evs : List Outbox) (t : Time)
    (next : Program Reply) (L : Session backend) : Prop where
  next : next = pure (.drained evs.length)
  flushed : L.flushed = publishAll t evs
  drawn : L.drawn = []
  select : ∃ s order, Drawn F batchSize s order evs

theorem Drawn.nodup {batchSize : ℕ} {s : Database} {order : List Uuid} {evs : List Outbox}
    (h : Drawn F batchSize s order evs) : (evs.map Outbox.id).Nodup := by
  obtain ⟨passed, _, hmap⟩ := h.taken
  rw [hmap]
  have hids : ((byCreation (unpublished s) order).map Outbox.id).Nodup :=
    ((byCreation_perm (unpublished_nodup s) h.scanned).map Outbox.id).nodup_iff.mpr
      (unpublished_nodup s)
  exact hids.sublist ((List.take_sublist _ _).trans List.filter_sublist)

/-- What holds of one published row at a time holds of a whole batch. -/
theorem publishAll_induction {R : Database → Database → Prop} (hrefl : ∀ s, R s s)
    (htrans : ∀ s s' s'', R s s' → R s' s'' → R s s'') (t : Time)
    (hput : ∀ s ev, s.outbox.find? ev.id = some ev → ev.publishedAt = none →
      R s (s.put (.outbox (publish t ev)))) {evs : List Outbox}
    (hnodup : (evs.map Outbox.id).Nodup) {s : Database}
    (hcurrent : ∀ ev ∈ evs, ev.publishedAt = none ∧ s.outbox.find? ev.id = some ev) :
    R s (view s (publishAll t evs)) := by
  induction evs generalizing s with
  | nil => exact hrefl s
  | cons ev evs ih =>
    obtain ⟨hid, hnodup⟩ := List.nodup_cons.mp hnodup
    obtain ⟨hnew, hfound⟩ := hcurrent ev (List.mem_cons_self ..)
    refine htrans _ _ _ (hput s ev hfound hnew) (ih hnodup ?_)
    intro ev' hev'
    obtain ⟨hnew', hfound'⟩ := hcurrent ev' (List.mem_cons_of_mem _ hev')
    refine ⟨hnew', (s.outbox.find?_put_of_ne (publish t ev) ev'.id ?_).trans hfound'⟩
    intro hsame
    exact hid (hsame ▸ List.mem_map_of_mem hev')

/-- The rows of the outbox once a batch is published. -/
theorem mem_publishAll {t : Time} {evs : List Outbox} {s : Database} {x : Outbox}
    (hnodup : (evs.map Outbox.id).Nodup) : x ∈ (view s (publishAll t evs)).outbox.rows ↔
      (∃ ev ∈ evs, x = publish t ev) ∨ x ∈ s.outbox.rows ∧ x.id ∉ evs.map Outbox.id := by
  induction evs generalizing s with
  | nil => simp [publishAll, view]
  | cons ev evs ih =>
    obtain ⟨hid, hnodup⟩ := List.nodup_cons.mp hnodup
    have hput : ∀ y : Outbox, y ∈ (s.put (.outbox (publish t ev))).outbox.rows ↔
        y = publish t ev ∨ y ∈ s.outbox.rows ∧ y.id ≠ ev.id := fun y =>
      s.outbox.mem_put (publish t ev) y
    refine (ih (s := s.put (.outbox (publish t ev))) hnodup).trans ?_
    rw [hput, List.map_cons, List.mem_cons, not_or]
    constructor
    · rintro (⟨e, he, rfl⟩ | ⟨rfl | ⟨hx, hne⟩, hnot⟩)
      · exact Or.inl ⟨e, List.mem_cons_of_mem _ he, rfl⟩
      · exact Or.inl ⟨ev, List.mem_cons_self .., rfl⟩
      · exact Or.inr ⟨hx, hne, hnot⟩
    · rintro (⟨e, he, rfl⟩ | ⟨hx, hne, hnot⟩)
      · rcases List.mem_cons.mp he with rfl | he
        · exact Or.inr ⟨Or.inl rfl, hid⟩
        · exact Or.inl ⟨e, he, rfl⟩
      · exact Or.inr ⟨Or.inr ⟨hx, hne⟩, hnot⟩

/-- Updates of outbox rows are always accepted. -/
theorem flushFails_publishAll {e : Exn} {fl : List (Write backend)} {t : Time}
    {evs : List Outbox} : ¬ F.FlushFails e fl (publishAll t evs) := by
  induction evs generalizing fl with
  | nil => exact fun h => h
  | cons ev evs ih =>
    rintro (h | ⟨_, h⟩)
    · contradiction
    · exact ih h

theorem inserted_publishAll (t : Time) (evs : List Outbox) :
    (publishAll t evs).filterMap Write.inserted = [] := by
  refine List.filterMap_eq_nil_iff.mpr ?_
  intro w hw
  obtain ⟨ev, _, rfl⟩ := List.mem_map.mp hw
  rfl

theorem drain_ensures (ext : Externals) (batchSize : ℕ) :
    (program ext (.drain batchSize)).Ensures F (.fresh backend) (Stop.Commits (fun _ => False)
      (fun next L => ∃ evs t, Drains F batchSize evs t next L)) := by
  unfold program drainBatch
  simp only
  rw [Prog.bind_assoc]
  refine Prog.Ensures.bind (selectUnpublished_ensures batchSize) (fun _ _ h => h) ?_
  rintro evs L ⟨hselect, hflushed, hpending, hdrawn⟩
  cases evs with
  | nil =>
    dsimp only
    rw [Prog.bind_assoc]
    refine ensures_commit_nothing hflushed hpending ⟨[], 0, rfl, hflushed, hdrawn, hselect⟩
  | cons ev evs =>
    dsimp only
    rw [Prog.bind_assoc]
    refine ensures_now ?_
    intro t
    rw [Prog.bind_assoc]
    refine Prog.Ensures.stageRows ?_
    rw [Prog.bind_assoc]
    have hall : (L.stageAll (publishAll t (ev :: evs))).flushed ++
        (L.stageAll (publishAll t (ev :: evs))).pending = publishAll t (ev :: evs) := by
      change L.flushed ++ (L.pending ++ _) = _
      rw [hflushed, hpending]
      rfl
    refine Prog.Ensures.commitAll ?_ ?_
    · intro _
      constructor
      · intro e he
        rw [hall, inserted_publishAll] at he
        contradiction
      · exact fun _ => ⟨ev :: evs, t, rfl, hall, hdrawn, hselect⟩
    · intro e _ he
      have hp : (L.stageAll (publishAll t (ev :: evs))).pending = publishAll t (ev :: evs) := by
        change L.pending ++ _ = _
        rw [hpending]
        rfl
      rw [hp] at he
      exact flushFails_publishAll he

end Drain

end ApexPayments.Service
