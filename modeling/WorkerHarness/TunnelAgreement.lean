import WorkerHarness.TunnelOwnership

/-!
# Tunnel rows and tunnel processes

The operations keep the two stores of tunnels in agreement, as long as the reaper finds every
registered process alive, nothing that closes a tunnel fails with its row still there, and no
creation registers a tunnel that a closing has already asked for.
-/

namespace WorkerHarness.TunnelAgreement

open Coroutines Tunnels TunnelOwnership

variable {α β : Type} {s s' : TunnelWorld} {t : ℕ} {id : String}

/-- No branch is taken that leaves a row without a process, or a process without a row. -/
def permits : {β : Type} → TunnelCall β → TunnelAnswer → TunnelWorld → Bool
  | _, .reapDead, _, s => s.entries.all fun entry => decide (entry.id ∉ s.dead)
  | _, .add entry, _, s => decide (entry.id ∉ s.sought)
  | _, .stop id, .fails _ _, s => decide (id ∉ s.rowIds)
  | _, .deletePortForward id, .fails _ executed, s => executed || decide (id ∉ s.rowIds)
  | _, _, _, _ => true

def Permitted (β : Type) (e : TunnelCall β) (w : TunnelAnswer) (s : TunnelWorld) : Prop := permits e w s = true

def Orderly : TunnelPool → TunnelEvent → Prop
  | _, .spawn p => Operation p
  | c, .go t w => ∀ β (e : TunnelCall β) k h, c.threads[t]? = some ⟨.perform e k, h⟩ → Permitted β e w c.state
  | _, _ => False

/-- Nothing is in progress. -/
def idle (c : TunnelPool) : Bool :=
  c.threads.all fun th => match th.prog with
    | .ret _ => true
    | .raise _ => true
    | _ => false

/-- The thread runs `p` from `s`, and ends where `Q` holds. -/
abbrev Goes (t : ℕ) (Q : Except TunnelError α → TunnelWorld → Prop) (p : TunnelM α) (s : TunnelWorld) : Prop :=
  Safe (tunnelInterp.restrict Permitted) contract t (fun r _ s => Q r s) p [] s

def Stable (t : ℕ) (J : TunnelWorld → Prop) : Prop := ∀ s s', J s → Rely t s s' → J s'

variable {J : TunnelWorld → Prop} {Q : Except TunnelError α → TunnelWorld → Prop} {e : TunnelCall β}
    {k : β → TunnelM α}

theorem goes_ret {a : α} (hJ : Stable t J) (hs : J s) (hQ : ∀ s, J s → Q (.ok a) s) : Goes t Q (.ret a) s :=
  fun s' hr _ => hQ s' (hJ s s' hs hr)

theorem goes_raise {x : TunnelError} (hJ : Stable t J) (hs : J s) (hQ : ∀ s, Owned s → J s → Q (.error x) s) :
    Goes t Q (.raise x) s :=
  fun s' hr hi => hQ s' hi (hJ s s' hs hr)

theorem goes_perform (hJ : Stable t J) (hs : J s)
    (h : ∀ w s s' b, J s → Owned s → Permitted β e w s → tunnelHandle e t w s = some (s', b) →
      Guar t s s' ∧ Owned s' ∧ Goes t Q (k b) s') : Goes t Q (.perform e k) s := by
  intro s₁ hr hi _
  refine ⟨trivial, fun w s₂ b hh => ?_⟩
  obtain ⟨hp, hh⟩ := Interp.restrict_handle hh
  exact h w s₁ s₂ b (hJ s s₁ hs hr) hi hp hh

/-- The effect leaves the two stores alone. -/
def Quiet (J : TunnelWorld → Prop) (e : TunnelCall β) : Prop :=
  ∀ t w s s' b, J s → Permitted β e w s → tunnelHandle e t w s = some (s', b) → Same s s'

/-- What the call waits for has nothing to do with the stores. -/
def inert : {β : Type} → TunnelCall β → Bool
  | _, .resolveWorker _ => true
  | _, .listPortForwards => true
  | _, .sshPortForward _ _ _ => true
  | _, .exited _ => true
  | _, .invalidate => true
  | _, .allocatePorts _ => true
  | _, .startJob _ => true
  | _, .stopJob _ => true
  | _, .waitUntilReady _ _ => true
  | _, _ => false

theorem quiet_of_inert (h : inert e = true) : Quiet J e := by
  intro t w s s' b _ _ hh
  have hs : s' = s := by
    cases e <;> first | cases h; done | cases w <;> cases hh <;> rfl
  rw [hs]
  exact Same.refl s

theorem goes_quiet (he : Quiet J e) (hJ : Stable t J) (hs : J s) (h : ∀ b s, J s → Goes t Q (k b) s) :
    Goes t Q (.perform e k) s := by
  refine goes_perform hJ hs fun w s s' b hj hi hp hh => ?_
  have hsame := he t w s s' b hj hp hh
  exact ⟨guar_same hsame, owned_same hsame hi, h b s' (hJ s s' hj (rely_same hsame))⟩

/-- An await that leaves the two stores alone. -/
theorem goes_await {e : TunnelCall (Except TunnelError β)} (he : Quiet J e) (hJ : Stable t J) (hs : J s)
    (hok : ∀ b s, J s → Goes t Q (k b) s) (herr : ∀ x s, Owned s → J s → Q (.error x) s) :
    Goes t Q ((Prog.await e).bind k) s := by
  refine goes_quiet he hJ hs fun r s hs => ?_
  cases r with
  | ok b => exact hok b s hs
  | error x => exact goes_raise hJ hs (herr x)

theorem goes_bind {p : TunnelM β} {f : β → TunnelM α}
    (hp : Goes t (fun r s => match r with
      | .ok b => Goes t Q (f b) s
      | .error x => ∀ s', Rely t s s' → Owned s' → Q (.error x) s') p s) : Goes t Q (p.bind f) s := by
  refine Safe.bind contract_coherent (Safe.mono (fun r h s _ hq => ?_) hp)
  have hnil : h = [] := List.eq_nil_iff_forall_not_mem.mpr fun l _ => l.elim
  subst hnil
  cases r <;> exact hq

/-- `try`: a failure is handled where it happens. -/
theorem goes_catching {p : TunnelM α} {handler : TunnelError → TunnelM α}
    (hp : Goes t (fun r s => match r with
      | .ok a => ∀ s', Rely t s s' → Owned s' → Q (.ok a) s'
      | .error x => Goes t Q (handler x) s) p s) : Goes t Q (p.catching handler) s := by
  refine Safe.catching contract_coherent (Safe.mono (fun r h s _ hq => ?_) hp)
  have hnil : h = [] := List.eq_nil_iff_forall_not_mem.mpr fun l _ => l.elim
  subst hnil
  cases r <;> exact hq

theorem stable_clean : Stable t (Clean t) := fun _ _ h hr => h.stable hr

theorem stable_closing : Stable t (Closing t id) := fun _ _ h hr => h.stable hr

theorem stable_drawn : Stable t (Drawn t id) := fun _ _ h hr => h.stable hr

theorem stable_placed : Stable t (Placed t id) := fun _ _ h hr => h.stable hr

theorem stable_registered : Stable t (Registered t id) := fun _ _ h hr => h.stable hr

theorem quiet_stop (id : String) : Quiet J (.stop id) := by
  intro t w s s' b _ _ hh
  cases w with
  | done =>
    cases hh
    exact same_kill s id
  | fails x executed =>
    cases hh
    cases executed
    · exact Same.refl s
    · exact same_kill s id
  | _ => cases hh

/-- The row of a tunnel that the thread is closing is deleted. -/
theorem goes_deletePortForward {k : Except TunnelError Unit → TunnelM α} (hs : Closing t id s)
    (h : ∀ r s, Clean t s → Goes t Q (k r) s) : Goes t Q (.perform (.deletePortForward id) k) s := by
  refine goes_perform stable_closing hs fun w s s' b hc hi hp hh => ?_
  have hdelete : Guar t s (s.deleteRow t id) ∧ Owned (s.deleteRow t id) ∧ Clean t (s.deleteRow t id) :=
    ⟨guar_deleteRow hc, owned_deleteRow hi hc, clean_deleteRow hc⟩
  cases w with
  | done =>
    cases hh
    exact ⟨hdelete.1, hdelete.2.1, h _ _ hdelete.2.2⟩
  | fails x executed =>
    cases hh
    cases executed with
    | true => exact ⟨hdelete.1, hdelete.2.1, h _ _ hdelete.2.2⟩
    | false =>
      -- Nothing was deleted, so there was nothing to delete.
      have hnone : id ∉ s.rowIds := of_decide_eq_true hp
      have hclean : Clean t s := hc.1.clean fun _ => ⟨hnone, hc.2.settled hi⟩
      exact ⟨guar_same (Same.refl s), hi, h _ _ hclean⟩
  | _ => cases hh

/-- The process of a tunnel that the thread is closing is stopped. -/
theorem goes_stop {k : Unit → TunnelM α} (hs : Closing t id s) (hok : ∀ s, Closing t id s → Goes t Q (k ()) s)
    (herr : ∀ x s, Clean t s → Q (.error x) s) : Goes t Q ((Prog.await (.stop id)).bind k) s := by
  refine goes_perform stable_closing hs fun w s s' b hc hi hp hh => ?_
  have hsame := quiet_stop (J := fun _ => True) id t w s s' b trivial hp hh
  have hc' : Closing t id s' := hc.stable (rely_same hsame)
  refine ⟨guar_same hsame, owned_same hsame hi, ?_⟩
  cases b with
  | ok _ => exact hok s' hc'
  | error x =>
    -- The stop failed when the row was gone.
    have hclean : Clean t s := by
      cases w with
      | fails y executed => exact hc.1.clean fun _ => ⟨of_decide_eq_true hp, hc.2.settled hi⟩
      | _ => cases hh
    exact goes_raise stable_clean (hclean.stable (rely_same hsame)) fun s _ hs => herr x s hs

/-- The registry is asked for the process of a tunnel that is closed. -/
theorem goes_remove {k : Option TunnelProcess → TunnelM α} (hs : Clean t s ∧ Settled s id)
    (h : ∀ r s, Closing t id s → Goes t Q (k r) s) : Goes t Q (.perform (.remove id true) k) s := by
  have hstable : Stable t fun s => Clean t s ∧ Settled s id := fun s s' h hr => ⟨h.1.stable hr, hr.settled id h.2⟩
  refine goes_perform hstable hs fun w s s' b ⟨hc, hsettled⟩ hi _ hh => ?_
  cases w with
  | done =>
    cases hh
    exact ⟨guar_removeEntry, owned_removeEntry hi hsettled t, h _ _ (closing_removeEntry hc)⟩
  | _ => cases hh

theorem goes_closeTunnel (hs : Clean t s ∧ Settled s id) : Goes t (fun _ s => Clean t s) (closeTunnel id) s := by
  have hdelete : ∀ s, Closing t id s → Goes t (fun _ s => Clean t s) (Prog.await (.deletePortForward id)) s :=
    fun s hc => goes_deletePortForward hc fun r s hs => by
      cases r with
      | ok _ => exact goes_ret stable_clean hs fun _ h => h
      | error x => exact goes_raise stable_clean hs fun _ _ h => h
  refine goes_remove hs fun entry s hc => ?_
  cases entry with
  | none => exact hdelete s hc
  | some entry => exact goes_stop hc hdelete fun _ _ h => h

/-- A roll-back closes the tunnel, whether the registry owns it or not. -/
theorem goes_cleanupFailed {pf : PortForward} {proc registered : Bool}
    (hs : if registered then Registered t pf.id s else Closing t pf.id s) :
    Goes t (fun _ s => Clean t s) (cleanupFailed pf proc registered) s := by
  have hdelete : ∀ s, Closing t pf.id s → Goes t (fun _ s => Clean t s) (deleteLogged pf.id) s := fun s hc =>
    goes_deletePortForward hc fun r s hs => by
    cases r with
    | ok _ => exact goes_ret stable_clean hs fun _ h => h
    | error x =>
      cases x
      · exact goes_raise stable_clean hs fun _ _ h => h
      all_goals exact goes_ret stable_clean hs fun _ h => h
  have hstop : ∀ (entry : Option TunnelProcess) s, Closing t pf.id s → Goes t (fun _ s => Clean t s)
      (if entry.isSome || proc then (Prog.await (.stop pf.id)).bind fun _ => deleteLogged pf.id
      else deleteLogged pf.id) s := fun entry s hc => by
    split
    · exact goes_stop hc hdelete fun _ _ h => h
    · exact hdelete s hc
  cases registered with
  | true => exact goes_remove ⟨hs.clean, hs.settled⟩ hstop
  | false =>
    refine goes_perform stable_closing hs fun w s s' b hc hi _ hh => ?_
    cases w with
    | done =>
      cases hh
      exact ⟨guar_same (Same.refl s), hi, hstop none s hc⟩
    | _ => cases hh

/-- An id is drawn: it belongs to no tunnel yet. -/
theorem goes_uuid {f : String → TunnelM α} (hs : Clean t s) (h : ∀ id s, Drawn t id s → Goes t Q (f id) s) :
    Goes t Q ((Prog.call .uuid).bind f) s := by
  refine goes_perform stable_clean hs fun w s s' b hc hi _ hh => ?_
  cases w with
  | text id =>
    simp only [tunnelHandle, Option.ite_none_right_eq_some, Option.some.injEq, Prod.mk.injEq] at hh
    obtain ⟨hu, rfl, rfl⟩ := hh
    have hg : Guar t s (s.draw t id) := guar_draw hu
    have hins : id ∉ s.inserted := fun hmem => (hi.inserted_given id hmem).elim (not_given hi hu)
    have hentries : id ∉ s.entryIds := fun hmem => (unused_iff hu).2.1 (hi.entries_rows id hmem)
    have hclean : Clean t (s.draw t id) := fun id' hown => by
      obtain ⟨hgone, hk⟩ := hc id' hown
      exact ⟨hgone, hk.imp hg.settled (hg.given _)⟩
    exact ⟨hg, owned_draw hi hu t, h id _ ⟨hclean, List.mem_cons_self .., hins, hentries⟩⟩
  | _ => cases hh

/-- The row of a tunnel is inserted, or a roll-back is due. -/
theorem goes_insertPortForward {pf : PortForward} {k : Except TunnelError Unit → TunnelM α} (hs : Drawn t pf.id s)
    (hok : ∀ s, Placed t pf.id s → Goes t Q (k (.ok ())) s)
    (herr : ∀ x s, Closing t pf.id s → Goes t Q (k (.error x)) s) :
    Goes t Q (.perform (.insertPortForward pf) k) s := by
  refine goes_perform stable_drawn hs fun w s s' b hd hi _ hh => ?_
  have hplaced := placed_insertRow hd
  cases w with
  | done =>
    simp only [tunnelHandle] at hh
    split at hh
    · cases hh
      exact ⟨guar_same (Same.refl s), hi, herr _ s hd.closing⟩
    · cases hh
      exact ⟨guar_insertRow hd, owned_insertRow hi hd, hok _ hplaced⟩
  | fails x executed =>
    simp only [tunnelHandle, Option.some.injEq, Prod.mk.injEq] at hh
    obtain ⟨rfl, rfl⟩ := hh
    split
    · exact ⟨guar_insertRow hd, owned_insertRow hi hd, herr x _ hplaced.closing⟩
    · exact ⟨guar_same (Same.refl s), hi, herr x s hd.closing⟩
  | _ => cases hh

/-- The process of a tunnel is registered. -/
theorem goes_add {pf : PortForward} {k : Unit → TunnelM α} (hs : Placed t pf.id s)
    (h : ∀ s, Registered t pf.id s → Goes t Q (k ()) s) : Goes t Q (.perform (.add (processOf pf)) k) s := by
  refine goes_perform stable_placed hs fun w s s' b hd hi hp hh => ?_
  cases w with
  | done =>
    cases hh
    have hplaced : Placed t (processOf pf).id s := hd
    have hreg : Registered t (processOf pf).id (s.addEntry t (processOf pf)) := registered_addEntry hi hplaced
    exact ⟨guar_addEntry hplaced, owned_addEntry hi hplaced (of_decide_eq_true hp), h _ hreg⟩
  | _ => cases hh

/-- A creation that rolls back whatever fails leaves no row behind. -/
theorem goes_openTunnel {pf : PortForward} {immediate : TunnelError} {rest : TunnelM Unit}
    {rollback : Bool → Bool → TunnelError → TunnelM Unit} (hs : Drawn t pf.id s)
    (hrest : ∀ s, Registered t pf.id s → Goes t (fun _ s => Registered t pf.id s) rest s)
    (hrollback : ∀ proc registered x s, (if registered then Registered t pf.id s else Closing t pf.id s) →
      Goes t (fun _ s => Clean t s) (rollback proc registered x) s) :
    Goes t (fun _ s => Clean t s) (openTunnel pf immediate rest rollback) s := by
  refine goes_quiet (quiet_of_inert rfl) stable_drawn hs fun proc s hs => ?_
  cases proc with
  | error x => exact hrollback false false x s hs.closing
  | ok _ =>
    refine goes_quiet (quiet_of_inert rfl) stable_drawn hs fun exited s hs => ?_
    cases exited with
    | true => exact hrollback true false immediate s hs.closing
    | false =>
      refine goes_insertPortForward hs (fun s hs => ?_) fun x s hs => hrollback true false x s hs
      refine goes_add hs fun s hs => ?_
      refine goes_catching (Safe.mono (fun r h s _ hreg => ?_) (hrest s hs))
      cases r with
      | ok _ => exact fun s' hr _ => hreg.clean.stable hr
      | error x => exact hrollback true true x s hreg

/-- What comes after a roll-back starts clean. -/
theorem goes_after {p : TunnelM β} {f : β → TunnelM Unit} (hp : Goes t (fun _ s => Clean t s) p s)
    (hf : ∀ b s, Clean t s → Goes t (fun _ s => Clean t s) (f b) s) :
    Goes t (fun _ s => Clean t s) (p.bind f) s := by
  refine goes_bind (Safe.mono (fun r h s _ hc => ?_) hp)
  cases r with
  | ok b => exact hf b s hc
  | error x => exact fun s' hr _ => hc.stable hr

/-- An await that leaves the two stores alone, at a moment when the thread answers for no row. -/
theorem goes_idle {e : TunnelCall (Except TunnelError β)} {f : β → TunnelM Unit} (he : inert e = true)
    (hs : Clean t s) (hok : ∀ b s, Clean t s → Goes t (fun _ s => Clean t s) (f b) s) :
    Goes t (fun _ s => Clean t s) ((Prog.await e).bind f) s :=
  goes_await (quiet_of_inert he) stable_clean hs hok fun _ _ _ h => h

theorem goes_refuse {statusCode : ℕ} {detail : String} (hs : Clean t s) :
    Goes t (fun _ s => Clean t s) (refuse statusCode detail : TunnelM α) s :=
  goes_raise stable_clean hs fun _ _ h => h

theorem goes_reraise {x : TunnelError} (hs : Clean t s) : Goes t (fun _ s => Clean t s) (.raise x : TunnelM α) s :=
  goes_raise stable_clean hs fun _ _ h => h

theorem goes_done (hs : Clean t s) : Goes t (fun _ s => Clean t s) (.ret () : TunnelM Unit) s :=
  goes_ret stable_clean hs fun _ h => h

theorem goes_invalidate (hs : Clean t s) : Goes t (fun _ s => Clean t s) (Prog.await .invalidate) s := by
  refine goes_quiet (quiet_of_inert rfl) stable_clean hs fun r s hs => ?_
  cases r with
  | ok _ => exact goes_done hs
  | error x => exact goes_reraise hs

theorem goes_tunnelsCreate (workerId : String) (localPort remotePort : ℕ) (hs : Clean t s) :
    Goes t (fun _ s => Clean t s) (tunnelsCreate workerId localPort remotePort) s := by
  refine goes_idle rfl hs fun worker s hs => ?_
  cases worker with
  | none => exact goes_refuse hs
  | some worker =>
    refine goes_idle rfl hs fun existing s hs => ?_
    split
    · exact goes_refuse hs
    · refine goes_uuid hs fun id s hs => ?_
      refine goes_openTunnel ?_ (fun s hs => ?_) fun proc registered x s hs => ?_
      · exact hs
      · refine goes_quiet (quiet_of_inert rfl) stable_registered hs fun r s hs => ?_
        cases r with
        | ok _ => exact goes_ret stable_registered hs fun _ h => h
        | error x => exact goes_raise stable_registered hs fun _ _ h => h
      · exact goes_after (goes_cleanupFailed hs) fun _ s hs => goes_reraise hs

/-- The id of a session is drawn after the tunnel is registered. -/
theorem registered_draw {id' : String} (hs : Registered t id s) (hu : s.unused id' = true) :
    Registered t id (s.draw t id') := by
  have hg : Guar t s (s.draw t id') := guar_draw hu
  refine ⟨fun id'' hown => ?_, hg.settled hs.settled, hs.inserted⟩
  obtain ⟨hgone, hk⟩ := hs.clean id'' hown
  exact ⟨hgone, hk.imp hg.settled (hg.given _)⟩

theorem quiet_insertMarimoSession {session : MarimoSession} (hJ : ∀ s, J s → session.tunnelId ∈ s.inserted) :
    Quiet J (.insertMarimoSession session) := by
  intro t w s s' b hj _ hh
  have hadd : Same s { s with marimoSessions := s.marimoSessions ++ [session] } := by
    refine ⟨s.dead, [], s.marimoSessions ++ [session], fun m hm => ?_, rfl⟩
    rcases List.mem_append.mp hm with hm | hm
    · exact .inl hm
    · rw [List.mem_singleton.mp hm]
      exact .inr (hJ s hj)
  cases w with
  | done =>
    cases hh
    exact hadd
  | fails x executed =>
    cases hh
    cases executed
    · exact Same.refl s
    · exact hadd
  | _ => cases hh

theorem quiet_deleteMarimoSession (sessionId : String) : Quiet J (.deleteMarimoSession sessionId) := by
  intro t w s s' b _ _ hh
  have hdelete : Same s { s with marimoSessions := s.marimoSessions.filter fun m => m.id ≠ sessionId } :=
    ⟨s.dead, [], _, fun m hm => .inl (List.mem_filter.mp hm).1, rfl⟩
  cases w with
  | done =>
    cases hh
    exact hdelete
  | fails x executed =>
    cases hh
    cases executed
    · exact Same.refl s
    · exact hdelete
  | _ => cases hh

theorem goes_sessionId {f : String → TunnelM α} (hs : Registered t id s)
    (h : ∀ id' s, Registered t id s → Goes t Q (f id') s) : Goes t Q ((Prog.call .uuid).bind f) s := by
  refine goes_perform stable_registered hs fun w s s' b hs hi _ hh => ?_
  cases w with
  | text id' =>
    simp only [tunnelHandle, Option.ite_none_right_eq_some, Option.some.injEq, Prod.mk.injEq] at hh
    obtain ⟨hu, rfl, rfl⟩ := hh
    exact ⟨guar_draw hu, owned_draw hi hu t, h id' _ (registered_draw hs hu)⟩
  | _ => cases hh

theorem goes_marimoCreate (workerId : String) (readyTimeout : ℕ) (hs : Clean t s) :
    Goes t (fun _ s => Clean t s) (marimoCreate workerId readyTimeout) s := by
  refine goes_idle rfl hs fun worker s hs => ?_
  cases worker with
  | none => exact goes_refuse hs
  | some worker =>
    dsimp only
    split
    · exact goes_refuse hs
    · refine goes_after ?_ fun ports s hs => ?_
      · refine goes_quiet (quiet_of_inert rfl) stable_clean hs fun r s hs => ?_
        cases r with
        | ok ports => exact goes_ret stable_clean hs fun _ h => h
        | error x => cases x <;> exact goes_reraise hs
      · refine goes_idle rfl hs fun job s hs => ?_
        obtain ⟨jobId, failed⟩ := job
        cases failed with
        | true => exact goes_refuse hs
        | false =>
          refine goes_uuid hs fun id s hs => ?_
          refine goes_after ?_ fun _ s hs => goes_invalidate hs
          refine goes_openTunnel ?_ (fun s hs => ?_) fun proc registered x s hs => ?_
          · exact hs
          · refine goes_await (quiet_of_inert rfl) stable_registered hs (fun _ s hs => ?_) fun _ _ _ h => h
            refine goes_sessionId hs fun sessionId s hs => ?_
            refine goes_quiet (quiet_insertMarimoSession fun s hs => hs.inserted) stable_registered hs fun r s hs =>
              ?_
            cases r with
            | ok _ => exact goes_ret stable_registered hs fun _ h => h
            | error x => exact goes_raise stable_registered hs fun _ _ h => h
          · refine goes_after (goes_cleanupFailed hs) fun _ s hs => ?_
            refine goes_after ?_ fun _ s hs => ?_
            · refine goes_quiet (quiet_of_inert rfl) stable_clean hs fun r s hs => ?_
              cases r with
              | ok _ => exact goes_done hs
              | error y => cases y <;> first | exact goes_reraise hs | exact goes_done hs
            · cases x <;> exact goes_reraise hs

/-- Listed tunnels have been inserted. -/
theorem goes_listPortForwards {f : List PortForward → TunnelM Unit} (hs : Clean t s)
    (h : ∀ ps s, Clean t s → (∀ p ∈ ps, Settled s p.id) → Goes t (fun _ s => Clean t s) (f ps) s) :
    Goes t (fun _ s => Clean t s) ((Prog.await .listPortForwards).bind f) s := by
  refine goes_perform stable_clean hs fun w s s' b hc hi hp hh => ?_
  have hsame := quiet_of_inert (J := fun _ => True) rfl t w s s' b trivial hp hh
  refine ⟨guar_same hsame, owned_same hsame hi, ?_⟩
  cases w with
  | done =>
    cases hh
    refine h s.portForwards s hc fun p hp => ?_
    have hins : p.id ∈ s.inserted := hi.rows_inserted p.id (List.mem_map.mpr ⟨p, hp, rfl⟩)
    obtain ⟨t', hg⟩ := hi.inserted_given p.id hins
    exact ⟨hi.given_seen p.id t' hg, .inl hins⟩
  | fails x executed =>
    cases hh
    exact goes_reraise hc
  | _ => cases hh

theorem goes_tunnelsDelete (tunnelId : String) (hs : Clean t s) :
    Goes t (fun _ s => Clean t s) (tunnelsDelete tunnelId) s := by
  refine goes_listPortForwards hs fun tunnels s hs hsettled => ?_
  cases hfind : tunnels.find? fun p => p.id = tunnelId with
  | none => exact goes_refuse hs
  | some pf =>
    refine goes_after (goes_closeTunnel ⟨hs, ?_⟩) fun _ s hs => goes_invalidate hs
    exact hsettled pf (List.mem_of_find?_eq_some hfind)

/-- The tunnel of a session that is found has been inserted, or is no tunnel. -/
theorem goes_getMarimoSession {sessionId : String} {f : Option MarimoSession → TunnelM Unit} (hs : Clean t s)
    (h : ∀ m s, Clean t s → (∀ session, m = some session → Settled s session.tunnelId) →
      Goes t (fun _ s => Clean t s) (f m) s) :
    Goes t (fun _ s => Clean t s) ((Prog.await (.getMarimoSession sessionId)).bind f) s := by
  refine goes_perform stable_clean hs fun w s s' b hc hi hp hh => ?_
  cases w with
  | done =>
    cases hh
    have hsame : Same s _ := ⟨s.dead, ((s.marimoSessions.find? fun m => m.id = sessionId).map (·.tunnelId)).toList,
      s.marimoSessions, fun _ hm => .inl hm, rfl⟩
    refine ⟨guar_same hsame, owned_same hsame hi, h _ _ (hc.stable (rely_same hsame)) fun session hfind => ?_⟩
    refine ⟨List.mem_append_left _ ?_, hi.sessions session (List.mem_of_find?_eq_some hfind)⟩
    rw [hfind]
    exact List.mem_singleton.mpr rfl
  | fails x executed =>
    cases hh
    exact ⟨guar_same (Same.refl s), hi, goes_reraise hc⟩
  | _ => cases hh

theorem goes_stopMarimoSession {session : MarimoSession} (hs : Clean t s ∧ Settled s session.tunnelId) :
    Goes t (fun _ s => Clean t s) (stopMarimoSession session) s := by
  have hstable : Stable t fun s => Clean t s ∧ Settled s session.tunnelId :=
    fun s s' h hr => ⟨h.1.stable hr, hr.settled _ h.2⟩
  refine goes_await (quiet_of_inert rfl) hstable hs (fun stopped s hs => ?_) fun _ _ _ h => h.1
  cases stopped with
  | false => exact goes_reraise hs.1
  | true =>
    refine goes_after (goes_closeTunnel hs) fun _ s hs => ?_
    refine goes_await (quiet_deleteMarimoSession _) stable_clean hs (fun _ s hs => ?_) fun _ _ _ h => h
    exact goes_invalidate hs

theorem goes_marimoDelete (sessionId : String) (hs : Clean t s) :
    Goes t (fun _ s => Clean t s) (marimoDelete sessionId) s := by
  refine goes_getMarimoSession hs fun session s hs hsettled => ?_
  cases session with
  | none => exact goes_refuse hs
  | some session =>
    refine goes_catching (Safe.mono (fun r h s _ hc => ?_) (goes_stopMarimoSession ⟨hs, hsettled session rfl⟩))
    cases r with
    | ok _ => exact fun s' hr _ => hc.stable hr
    | error x => cases x <;> exact goes_reraise hc

/-- The reaper finds every process alive. -/
theorem goes_reapOnce (hs : Clean t s) : Goes t (fun _ s => Clean t s) reapOnce s := by
  refine goes_perform stable_clean hs fun w s s' b hc hi hp hh => ?_
  cases w with
  | done =>
    cases hh
    have hreap : s.reap = s := by
      have hall : (s.entries.filter fun e => e.id ∉ s.dead) = s.entries :=
        List.filter_eq_self.mpr fun entry hmem => List.all_eq_true.mp hp entry hmem
      simp only [TunnelWorld.reap, hall]
    rw [hreap]
    exact ⟨guar_same (Same.refl s), hi, goes_done hc⟩
  | _ => cases hh

theorem goes_exits (id : String) (hs : Clean t s) : Goes t (fun _ s => Clean t s) (Prog.call (.exits id)) s := by
  refine goes_quiet (fun t w s s' b _ _ hh => ?_) stable_clean hs fun _ s hs => goes_done hs
  cases w with
  | done =>
    cases hh
    exact same_kill s id
  | _ => cases hh

/-- An operation answers for no row when it ends. -/
theorem goes_operation {p : TunnelM Unit} (hp : Operation p) (hs : Clean t s) :
    Goes t (fun _ s => Clean t s) p s := by
  cases hp with
  | tunnelsCreate workerId localPort remotePort => exact goes_tunnelsCreate workerId localPort remotePort hs
  | tunnelsDelete tunnelId => exact goes_tunnelsDelete tunnelId hs
  | marimoCreate workerId readyTimeout => exact goes_marimoCreate workerId readyTimeout hs
  | marimoDelete sessionId => exact goes_marimoDelete sessionId hs
  | reapOnce => exact goes_reapOnce hs
  | exits id => exact goes_exits id hs

theorem owned_start (sessions : List MarimoSession) (dead : List String) :
    Owned { marimoSessions := sessions, dead := dead } where
  rows_inserted _ h := nomatch h
  inserted_given _ h := nomatch h
  given_seen _ _ h := nomatch h
  given_unique _ _ _ h := nomatch h
  entries_rows _ h := nomatch h
  sought_entries _ h := nomatch h
  sought_settled _ h := nomatch h
  sessions _ _ := .inr fun _ h => nomatch h
  orphans _ h := nomatch h

theorem sound_of_orderly {sessions : List MarimoSession} {dead : List String} {c : TunnelPool}
    (hc : Pool.Reachable tunnelInterp Orderly { marimoSessions := sessions, dead := dead } c) :
    Pool.Sound (tunnelInterp.restrict Permitted) contract (fun t _ _ s => Clean t s) c := by
  have hrestrict : Pool.Reachable (tunnelInterp.restrict Permitted) Orderly
      { marimoSessions := sessions, dead := dead } c :=
    hc.restrict (fun _ _ h => h) fun c t w β e k h hok ht => hok β e k h ht
  refine hrestrict.sound contract_coherent (owned_start sessions dead) (fun _ _ => ⟨(nomatch ·), (nomatch ·)⟩)
    (fun _ => trivial) (fun c p hop t s _ hf => goes_operation hop fun id hown => absurd hown (hf id).2)
    (fun _ _ _ _ _ _ _ _ _ => trivial) (fun _ _ _ hok => hok.elim) (fun _ _ hok => hok.elim) fun c hlost => ?_
  exact fun _ => trivial

/-- The ids of the rows are those of the registered processes whenever nothing is in progress. -/
theorem tunnels_owned {sessions : List MarimoSession} {dead : List String} {c : TunnelPool}
    (hc : Pool.Reachable tunnelInterp Orderly { marimoSessions := sessions, dead := dead } c)
    (hidle : idle c = true)
    (id : String) : id ∈ c.state.rowIds ↔ id ∈ c.state.entryIds := by
  have hsound := sound_of_orderly hc
  refine ⟨fun hrow => by_contra fun hout => ?_, hsound.inv.entries_rows id⟩
  obtain ⟨t, hown⟩ := hsound.inv.orphans id hrow hout
  have hlt : t < c.threads.length := by
    by_contra hge
    exact (hsound.fresh t (Nat.le_of_not_lt hge) id).2 hown
  have ht : c.threads[t]? = some c.threads[t] := List.getElem?_eq_getElem hlt
  have hsafe := hsound.safe t _ ht
  have hdone := List.all_eq_true.mp hidle _ (List.getElem_mem hlt)
  -- A thread that has ended answers for no row.
  have hclean : Clean t c.state := by
    generalize hth : c.threads[t].prog = p at hsafe hdone
    cases p with
    | ret a => exact hsafe c.state (Rely.refl t c.state) hsound.inv
    | raise x => exact hsafe c.state (Rely.refl t c.state) hsound.inv
    | perform e k => cases hdone
    | acquire l k => cases hdone
    | release l k => cases hdone
  exact (hclean id hown).1 hrow

/-- A request forwards a port. -/
def forwarded : List TunnelEvent :=
  .spawn (tunnelsCreate "gpu-rig-1" 8080 80) ::
    [.worker (some "gpu-rig-1"), .done, .text "web", .done, .done, .done, .done, .done].map (.go 0)

def reaped : List TunnelEvent := [.spawn (Prog.call (.exits "web")), .go 1 .done, .spawn reapOnce, .go 2 .done]

/-- A test for permitted effects. -/
def orderly (c : TunnelPool) : TunnelEvent → Bool
  | .go t w => match c.threads[t]? with
    | some ⟨.perform e _, _⟩ => permits e w c.state
    | _ => true
  | _ => true

theorem orderly_go {c : TunnelPool} {w : TunnelAnswer} (h : orderly c (.go t w) = true) : Orderly c (.go t w) := by
  intro β e k held ht
  simp only [orderly, ht] at h
  exact h

theorem tunnels_owned_forwarded : ∃ c : TunnelPool, idle c = true ∧ c.state.rowIds = ["web"] ∧
    ∀ id, id ∈ c.state.rowIds ↔ id ∈ c.state.entryIds := by
  have hrun : (Pool.checkedRun tunnelInterp orderly ⟨{}, []⟩ forwarded).map
      (fun c => (idle c, c.state.rowIds)) = some (true, ["web"]) := by decide +kernel
  obtain ⟨c, hc, hobs⟩ := Option.map_eq_some_iff.mp hrun
  simp only [Prod.mk.injEq] at hobs
  have hreach : Pool.Reachable tunnelInterp Orderly {} c := by
    refine Pool.Reachable.checkedRun .init (fun d ev hev htest => ?_) hc
    rcases List.mem_cons.mp hev with rfl | hev
    · exact .tunnelsCreate _ _ _
    · obtain ⟨w, -, rfl⟩ := List.mem_map.mp hev
      exact orderly_go htest
  exact ⟨c, hobs.1, hobs.2, tunnels_owned hreach hobs.1⟩

/-- The reaper forgets the process and leaves the row. -/
theorem not_tunnels_owned : ¬∀ (sessions : List MarimoSession) (dead : List String) (c : TunnelPool),
    Pool.Reachable tunnelInterp Operates { marimoSessions := sessions, dead := dead } c → idle c = true →
      ∀ id, id ∈ c.state.rowIds ↔ id ∈ c.state.entryIds := by
  intro h
  have hrun : (Pool.run tunnelInterp ⟨{}, []⟩ (forwarded ++ reaped)).map
      (fun c => (idle c, c.state.rowIds, c.state.entryIds)) = some (true, ["web"], []) := by decide +kernel
  obtain ⟨c, hc, hobs⟩ := Option.map_eq_some_iff.mp hrun
  simp only [Prod.mk.injEq] at hobs
  have hreach : Pool.Reachable tunnelInterp Operates {} c := by
    refine Pool.Reachable.run .init (fun d ev hev => ?_) hc
    simp only [forwarded, reaped, List.cons_append, List.mem_cons, List.mem_append, List.mem_map, List.not_mem_nil,
      or_false] at hev
    rcases hev with rfl | ⟨w, -, rfl⟩ | rfl | rfl | rfl | rfl
    · exact .tunnelsCreate _ _ _
    · trivial
    · exact .exits _
    · trivial
    · exact .reapOnce
    · trivial
  have hiff := h [] [] c hreach hobs.1 "web"
  rw [hobs.2.1, hobs.2.2] at hiff
  exact absurd (hiff.mp (List.mem_singleton.mpr rfl)) (List.not_mem_nil)

end WorkerHarness.TunnelAgreement
