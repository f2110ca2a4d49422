import ApexPayments.RowLocking.Refinement

/-!
Rules for reasoning about whole stretches of a program. `Ensures` says that every
way in which a stretch can stop meets a condition; a specification of a function
is an `Ensures` whose condition is `Ends`, and `Ensures.bind` puts specifications
together along a program.
-/
namespace RowLocking

variable {B : Backend} {α β : Type} {F : Frame B}

namespace Stop

/-- The stretch ends inside its transaction, with a value or an error. -/
def Ends (E : B.Error → Session B → Prop) (Q : α → Session B → Prop) : Stop B α → Prop
  | value a L => Q a L
  | raised e L => E e L
  | _ => False

/-- The session in which a stretch stopped without an error. -/
def session? : Stop B α → Option (Session B)
  | value _ L => some L
  | raised _ _ => none
  | committed _ L => some L
  | calling _ _ L => some L

/-- The stretch ends with a commit or an error. -/
def Commits (E : B.Error → Prop) (Q : Prog B α → Session B → Prop) : Stop B α → Prop
  | committed next L => Q next L
  | raised e _ => E e
  | _ => False

end Stop

namespace Session

/-- The session after staging a list of statements. -/
def stageAll (L : Session B) (ws : List (Write B)) : Session B :=
  { L with pending := L.pending ++ ws }

end Session

theorem view_append (s : B.Store) (ws ws' : List (Write B)) :
    view s (ws ++ ws') = view (view s ws) ws' := List.foldl_append

namespace Frame

/-- The store as the session has made it, staged rows included. -/
def working (F : Frame B) (L : Session B) : B.Store := view F.hi (L.flushed ++ L.pending)

theorem working_stage (L : Session B) (w : Write B) :
    F.working (L.stage w) = B.put (F.working L) w.row := by
  simp [working, Session.stage, view, ← List.append_assoc]

theorem working_flushAll (L : Session B) : F.working L.flushAll = F.working L := by
  simp [working, Session.flushAll]

theorem working_of_pending (L : Session B) (hp : L.pending = []) :
    F.working L = view F.hi L.flushed := by
  simp [working, hp]

theorem flushes_append (fl ws ws' : List (Write B)) :
    F.Flushes fl (ws ++ ws') ↔ F.Flushes fl ws ∧ F.Flushes (fl ++ ws) ws' := by
  induction ws generalizing fl with
  | nil => simp [Flushes]
  | cons w ws ih => simp [Flushes, ih, and_assoc]

theorem flushes_of_pending {L : Session B} (hp : L.pending = []) :
    F.Flushes L.flushed L.pending := by
  rw [hp]
  trivial

/-- A row that was inserted had no committed or own predecessor. -/
theorem get_of_flushes {fl ws ws' : List (Write B)} {r : B.Row}
    (h : F.Flushes fl (ws ++ .insert r :: ws')) :
    B.get (view F.hi (fl ++ ws)) (B.keyOf r) = none :=
  (((flushes_append fl ws _).mp h).2.1).1 r rfl

/-- The first staged row is new. -/
theorem fresh_of_flushes {fl ws : List (Write B)} {r : B.Row}
    (h : F.Flushes fl (.insert r :: ws)) : B.get (view F.hi fl) (B.keyOf r) = none :=
  h.1.1 r rfl

/-- Every statement that executes meets the constraints in a store it could see. -/
theorem violation_of_flushes {fl ws : List (Write B)} (h : F.Flushes fl ws) :
    ∀ w ∈ ws, ∃ s fl', F.Sees s ∧ B.violation (view s fl') w.row = none := by
  induction ws generalizing fl with
  | nil => simp
  | cons w ws ih =>
    intro v hv
    rcases List.mem_cons.mp hv with rfl | hv
    · obtain ⟨s, hs, hn⟩ := h.1.2
      exact ⟨s, fl, hs, hn⟩
    · exact ih h.2 v hv

end Frame

namespace Prog

/-- Every way in which the program can stop meets `R`. -/
def Ensures (F : Frame B) (p : Prog B α) (L : Session B) (R : Stop B α → Prop) : Prop :=
  ∀ o, p.Runs F L o → R o

namespace Ensures

variable {L : Session B} {p : Prog B α} {R : Stop B β → Prop}
  {E : B.Error → Session B → Prop} {Q : α → Session B → Prop}

theorem bind {f : α → Prog B β} (hp : p.Ensures F L (Stop.Ends E Q))
    (hE : ∀ e L', E e L' → R (.raised e L'))
    (hQ : ∀ a L', Q a L' → (f a).Ensures F L' R) : (p >>= f).Ensures F L R := by
  intro o ho
  obtain ⟨o', hr, hf⟩ := (runs_bind F p f L o).mp ho
  have h := hp o' hr
  cases o' with
  | value a L' => exact hQ a L' h o hf
  | raised e L' =>
    cases hf
    exact hE e L' h
  | committed next L' => exact h.elim
  | calling q next L' => exact h.elim

theorem mono {R' : Stop B α → Prop} {R : Stop B α → Prop} (h : p.Ensures F L R')
    (hR : ∀ o, R' o → R o) : p.Ensures F L R := fun o ho => hR o (h o ho)

theorem ends {E' : B.Error → Session B → Prop} {Q' : α → Session B → Prop}
    (h : p.Ensures F L (Stop.Ends E' Q')) (hE : ∀ e L', E' e L' → E e L')
    (hQ : ∀ a L', Q' a L' → Q a L') : p.Ensures F L (Stop.Ends E Q) := by
  refine h.mono ?_
  rintro (_ | _ | _ | _) ho
  · exact hQ _ _ ho
  · exact hE _ _ ho
  · exact ho
  · exact ho

theorem pure {R : Stop B α → Prop} {a : α} (h : R (.value a L)) :
    (Pure.pure a : Prog B α).Ensures F L R := by
  rintro o rfl
  exact h

theorem raise {R : Stop B α → Prop} {e : B.Error} (h : R (.raised e L)) :
    (Prog.raise e : Prog B α).Ensures F L R := by
  rintro o rfl
  exact h

theorem select {g : B.Store → α} {f : α → Prog B β}
    (h : ∀ s, F.Reads L s → (f (g (view s L.flushed))).Ensures F (L.see s) R) :
    (Prog.select g >>= f).Ensures F L R := by
  rintro o ⟨s, hs, ho⟩
  exact h s hs o ho

theorem lockRow {k : B.Key} {f : Option B.Row → Prog B β}
    (hnone : ∀ s, F.Reads L s → B.get (view s L.flushed) k = none →
      (f none).Ensures F (L.see s) R)
    (hsome : ∀ r, B.get (view F.hi L.flushed) k = some r → (f (some r)).Ensures F (L.hold k) R) :
    (Prog.lockRow k >>= f).Ensures F L R := by
  rintro o (⟨s, hs, hn, ho⟩ | ⟨r, hr, ho⟩)
  · exact hnone s hs hn o ho
  · exact hsome r hr o ho

theorem tryLockRow {k : B.Key} {f : Option B.Row → Prog B β}
    (hnone : ∀ s, F.Reads L s → B.get (view s L.flushed) k = none →
      (f none).Ensures F (L.see s) R)
    (hsome : ∀ r, B.get (view F.hi L.flushed) k = some r → (f (some r)).Ensures F (L.hold k) R)
    (hskip : F.skips k → (f none).Ensures F L R) : (Prog.tryLockRow k >>= f).Ensures F L R := by
  rintro o (⟨s, hs, hn, ho⟩ | ⟨r, hr, ho⟩ | ⟨hk, ho⟩)
  · exact hnone s hs hn o ho
  · exact hsome r hr o ho
  · exact hskip hk o ho

theorem stageRow {w : Write B} {f : Unit → Prog B β} (h : (f ()).Ensures F (L.stage w) R) :
    (Prog.stageRow w >>= f).Ensures F L R := fun o ho => h o ho

theorem flushAll {f : Unit → Prog B β}
    (hok : F.Flushes L.flushed L.pending → (f ()).Ensures F L.flushAll R)
    (hfail : ∀ e L', F.FlushFails e L.flushed L.pending → R (.raised e L')) :
    (Prog.flushAll >>= f).Ensures F L R := by
  rintro o (⟨hf, ho⟩ | ⟨e, L', hf, rfl⟩)
  · exact hok hf o ho
  · exact hfail e L' hf

theorem drawIdent {f : B.Ident → Prog B β}
    (h : ∀ i, i ∉ F.spent → i ∉ L.drawn → (f i).Ensures F (L.draw i) R) :
    (Prog.drawIdent >>= f).Ensures F L R := by
  rintro o ⟨i, hs, hd, ho⟩
  exact h i hs hd o ho

theorem askFor {q : B.Query} {f : B.Answer q → Prog B β}
    (h : ∀ a, (f a).Ensures F L R) : (Prog.askFor q >>= f).Ensures F L R := by
  rintro o ⟨a, ho⟩
  exact h a o ho

theorem commitAll {f : Unit → Prog B β}
    (hok : F.Flushes L.flushed L.pending →
      (∀ e, B.deferred (F.working L) ((L.flushed ++ L.pending).filterMap Write.inserted) = some e →
        R (.raised e L.flushAll)) ∧
      (B.deferred (F.working L) ((L.flushed ++ L.pending).filterMap Write.inserted) = none →
        R (.committed (f ()) L.flushAll)))
    (hfail : ∀ e L', F.FlushFails e L.flushed L.pending → R (.raised e L')) :
    (Prog.commitAll >>= f).Ensures F L R := by
  intro o ho
  rcases (runs_commitAll F L o f).mp ho with ⟨hf, ho⟩ | ⟨e, L', hf, rfl⟩
  · cases hd : B.deferred (view F.hi L.flushAll.flushed)
      (L.flushAll.flushed.filterMap Write.inserted) with
    | some e =>
      simp only [hd] at ho
      rw [ho]
      exact (hok hf).1 e hd
    | none =>
      simp only [hd] at ho
      rw [ho]
      exact (hok hf).2 hd
  · exact hfail e L' hf

theorem and {R R' : Stop B α → Prop} (h : p.Ensures F L R) (h' : p.Ensures F L R') :
    p.Ensures F L fun o => R o ∧ R' o := fun o ho => ⟨h o ho, h' o ho⟩

theorem ends_and {E' : B.Error → Session B → Prop} {Q' : α → Session B → Prop}
    (h : p.Ensures F L (Stop.Ends E Q)) (h' : p.Ensures F L (Stop.Ends E' Q')) :
    p.Ensures F L (Stop.Ends (fun e L' => E e L' ∧ E' e L') fun a L' => Q a L' ∧ Q' a L') := by
  refine (h.and h').mono ?_
  rintro (_ | _ | _ | _) ⟨ho, ho'⟩
  · exact ⟨ho, ho'⟩
  · exact ⟨ho, ho'⟩
  · exact ho
  · exact ho

end Ensures

/-- A program only adds to the stores it has read. -/
theorem snapshots_ensures (p : Prog B α) (L : Session B) :
    p.Ensures F L fun o => ∀ L', o.session? = some L' → L.snapshots <:+ L'.snapshots := by
  induction p generalizing L with
  | pure a =>
    rintro o rfl L' h
    cases h
    exact List.suffix_refl _
  | raise e =>
    rintro o rfl L' h
    contradiction
  | read next ih =>
    rintro o ⟨s, _, ho⟩ L' h
    exact (List.suffix_cons s _).trans (ih _ _ o ho L' h)
  | lock k next ih =>
    rintro o (⟨s, _, _, ho⟩ | ⟨r, _, ho⟩) L' h
    · exact (List.suffix_cons s _).trans (ih _ _ o ho L' h)
    · exact ih _ (L.hold k) o ho L' h
  | tryLock k next ih =>
    rintro o (⟨s, _, _, ho⟩ | ⟨r, _, ho⟩ | ⟨_, ho⟩) L' h
    · exact (List.suffix_cons s _).trans (ih _ _ o ho L' h)
    · exact ih _ (L.hold k) o ho L' h
    · exact ih _ L o ho L' h
  | stage w next ih => exact fun o ho L' h => ih (L.stage w) o ho L' h
  | flush next ih =>
    rintro o (⟨_, ho⟩ | ⟨e, L₁, _, rfl⟩) L' h
    · exact ih L.flushAll o ho L' h
    · contradiction
  | draw next ih =>
    rintro o ⟨i, _, _, ho⟩ L' h
    exact ih _ (L.draw i) o ho L' h
  | ask q next ih =>
    rintro o ⟨a, ho⟩ L' h
    exact ih _ L o ho L' h
  | call q next ih =>
    rintro o rfl L' h
    cases h
    exact List.suffix_refl _
  | commit next ih =>
    rintro o ⟨_, ho⟩ L' h
    split at ho
    · subst ho
      contradiction
    · subst ho
      cases h
      exact List.suffix_refl _

theorem Ensures.withSnapshots {p : Prog B α} {L : Session B} {E : B.Error → Session B → Prop}
    {Q : α → Session B → Prop} (h : p.Ensures F L (Stop.Ends E Q)) :
    p.Ensures F L (Stop.Ends E fun a L' => Q a L' ∧ L.snapshots <:+ L'.snapshots) := by
  refine (h.and (snapshots_ensures p L)).mono ?_
  rintro (_ | _ | _ | _) ⟨hends, hsnap⟩
  · exact ⟨hends, hsnap _ rfl⟩
  · exact hends
  · exact hends
  · exact hends

theorem Ensures.stageRows {L : Session B} {R : Stop B β → Prop} {ws : List (Write B)}
    {f : Unit → Prog B β} (h : (f ()).Ensures F (L.stageAll ws) R) :
    (Prog.stageRows ws >>= f).Ensures F L R := by
  induction ws generalizing L with
  | nil =>
    intro o ho
    refine h o ?_
    rw [Session.stageAll, List.append_nil]
    exact ho
  | cons w ws ih =>
    have hstep : (Prog.stageRows ws >>= f).Ensures F (L.stage w) R := by
      refine ih ?_
      have he : (L.stage w).stageAll ws = L.stageAll (w :: ws) := by
        simp [Session.stageAll, Session.stage]
      rwa [he]
    exact fun o ho => hstep o ho

end Prog

end RowLocking
