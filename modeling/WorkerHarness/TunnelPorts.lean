import WorkerHarness.TunnelAgreement

/-!
# Local ports of tunnels

A creation comes to its local port by looking at the rows, or by an allocation that looks at the sockets,
and inserts its row later. Two rows have the same port only when two creations hold this port at one time, or
when the allocation hands out the port of a row.
-/

namespace WorkerHarness.TunnelPorts

open Coroutines Tunnels TunnelAgreement

variable {α β : Type}

/-- The effects at which a creation comes to its port. -/
def chooses : {β : Type} → TunnelCall β → Bool
  | _, .listPortForwards => true
  | _, .allocatePorts _ => true
  | _, _ => false

def insertsPort (p : ℕ) : {β : Type} → TunnelCall β → Prop
  | _, .insertPortForward pf => pf.localPort = p
  | _, _ => False

def InHand (p : ℕ) {α : Type} : TunnelM α → Prop
  | .ret _ => False
  | .raise _ => False
  | .perform e k => chooses e = false ∧ (insertsPort p e ∨ ∃ b, InHand p (k b))
  | .acquire _ k => InHand p k
  | .release _ k => InHand p k

/-- Thread `t` has the port in hand. -/
def Holds (c : TunnelPool) (t p : ℕ) : Prop := ∃ th, c.threads[t]? = some th ∧ InHand p th.prog

/-- A creation comes to its port while no other one has it in hand, and an allocation gives no port of a row. -/
def Exclusive (c : TunnelPool) : TunnelEvent → Prop
  | .go t w =>
    (∀ c' p, c.step tunnelInterp (.go t w) = some c' → Holds c' t p → ¬Holds c t p → ∀ t', t' ≠ t → ¬Holds c t' p) ∧
    (∀ workerId remotePort localPort, c.AtCall t (.allocatePorts workerId) → w = .ports remotePort localPort →
      ∀ pf ∈ c.state.portForwards, pf.localPort ≠ localPort)
  | _ => True

def Follows {α : Type} : {β : Type} → TunnelCall β → (β → TunnelM α) → Prop
  | _, .listPortForwards, k => ∀ r p, InHand p (k r) → ∃ rows, r = .ok rows ∧ ∀ pf ∈ rows, pf.localPort ≠ p
  | _, .allocatePorts _, k => ∀ r p, InHand p (k r) → ∃ remotePort, r = .ok (remotePort, p)
  | _, .insertPortForward _, k => ∀ r p, ¬InHand p (k r)
  | _, _, _ => True

/-- The coroutine looks at the rows or allocates before it inserts, and inserts once. -/
def Checked {α : Type} : TunnelM α → Prop
  | .ret _ => True
  | .raise _ => True
  | .perform e k => Follows e k ∧ ∀ b, Checked (k b)
  | .acquire _ k => Checked k
  | .release _ k => Checked k

def inserts : {β : Type} → TunnelCall β → Bool
  | _, .insertPortForward _ => true
  | _, _ => false

def Harmless (p : TunnelM α) : Prop := p.Performs (fun _ _ _ => True) (fun _ e => inserts e = false) fun _ => True

/-- The coroutine inserts no row and comes to no port. -/
def Quiet (p : TunnelM α) : Prop :=
  p.Performs (fun _ _ _ => True) (fun _ e => inserts e = false ∧ chooses e = false) fun _ => True

variable {x : TunnelM α} {f : α → TunnelM β} {p : ℕ}

theorem Quiet.harmless (h : Quiet x) : Harmless x := h.mono (fun _ _ he => he.1) fun _ h => h

theorem not_inHand_of_harmless (h : Harmless x) (p : ℕ) : ¬InHand p x := by
  induction x with
  | ret a => exact id
  | raise e => exact id
  | perform e k ih =>
    rintro ⟨-, hinsert | ⟨b, hb⟩⟩
    · have hno := h.1
      cases e <;> first | exact hinsert | cases hno
    · exact ih b (h.2 b trivial) hb
  | acquire l k ih => exact l.elim
  | release l k ih => exact l.elim

theorem checked_of_harmless (h : Harmless x) : Checked x := by
  induction x with
  | ret a => trivial
  | raise e => trivial
  | perform e k ih =>
    have hk (b : _) : ∀ p, ¬InHand p (k b) := not_inHand_of_harmless (h.2 b trivial)
    refine ⟨?_, fun b => ih b (h.2 b trivial)⟩
    cases e with
    | listPortForwards => exact fun r p hr => absurd hr (hk r p)
    | allocatePorts workerId => exact fun r p hr => absurd hr (hk r p)
    | insertPortForward pf => exact fun r p => hk r p
    | _ => trivial
  | acquire l k ih => exact l.elim
  | release l k ih => exact l.elim

/-- What is in hand in a sequence is in hand in its first part or comes up later. -/
theorem inHand_bind (h : InHand p (x.bind f)) : InHand p x ∨ ∃ a, InHand p (f a) := by
  induction x with
  | ret a => exact .inr ⟨a, h⟩
  | raise e => exact h.elim
  | perform e k ih =>
    obtain ⟨hchoose, hinsert | ⟨b, hb⟩⟩ := h
    · exact .inl ⟨hchoose, .inl hinsert⟩
    · rcases ih b hb with hk | hf
      · exact .inl ⟨hchoose, .inr ⟨b, hk⟩⟩
      · exact .inr hf
  | acquire l k ih => exact l.elim
  | release l k ih => exact l.elim

/-- A first part that comes to no port. -/
theorem Checked.quiet_bind (hx : Quiet x) (hf : ∀ a, Checked (f a)) : Checked (x.bind f) := by
  induction x with
  | ret a => exact hf a
  | raise e => trivial
  | perform e k ih =>
    refine ⟨?_, fun b => ih b (hx.2 b trivial)⟩
    obtain ⟨hinsert, hchoose⟩ := hx.1
    cases e with
    | insertPortForward pf => cases hinsert
    | listPortForwards => cases hchoose
    | allocatePorts workerId => cases hchoose
    | _ => trivial
  | acquire l k ih => exact l.elim
  | release l k ih => exact l.elim

/-- A rest that inserts no row. -/
theorem Checked.bind_harmless (hx : Checked x) (hf : ∀ a, Harmless (f a)) : Checked (x.bind f) := by
  induction x with
  | ret a => exact checked_of_harmless (hf a)
  | raise e => trivial
  | perform e k ih =>
    have hback (b : _) (p : ℕ) (h : InHand p ((k b).bind f)) : InHand p (k b) :=
      (inHand_bind h).resolve_right fun ⟨a, ha⟩ => not_inHand_of_harmless (hf a) p ha
    refine ⟨?_, fun b => ih b (hx.2 b)⟩
    have hfollows := hx.1
    cases e with
    | listPortForwards => exact fun r p hr => hfollows r p (hback r p hr)
    | allocatePorts workerId => exact fun r p hr => hfollows r p (hback r p hr)
    | insertPortForward pf => exact fun r p hr => hfollows r p (hback r p hr)
    | _ => trivial
  | acquire l k ih => exact l.elim
  | release l k ih => exact l.elim

def Opens (q : ℕ) (x : TunnelM α) : Prop := Checked x ∧ ∀ p, InHand p x → p = q

variable {q : ℕ}

theorem opens_of_harmless (h : Harmless x) : Opens q x :=
  ⟨checked_of_harmless h, fun p hp => absurd hp (not_inHand_of_harmless h p)⟩

theorem Opens.quiet_bind (hx : Quiet x) (hf : ∀ a, Opens q (f a)) : Opens q (x.bind f) := by
  refine ⟨Checked.quiet_bind hx fun a => (hf a).1, fun p hp => ?_⟩
  rcases inHand_bind hp with hp | ⟨a, hp⟩
  · exact absurd hp (not_inHand_of_harmless hx.harmless p)
  · exact (hf a).2 p hp

theorem Opens.bind_harmless (hx : Opens q x) (hf : ∀ a, Harmless (f a)) : Opens q (x.bind f) := by
  refine ⟨Checked.bind_harmless hx.1 hf, fun p hp => ?_⟩
  rcases inHand_bind hp with hp | ⟨a, hp⟩
  · exact hx.2 p hp
  · exact absurd hp (not_inHand_of_harmless (hf a) p)

theorem quiet_call {e : TunnelCall α} (h : inserts e = false ∧ chooses e = false) : Quiet (Prog.call e) :=
  .call h fun _ _ => trivial

theorem quiet_await {e : TunnelCall (Except TunnelError α)} (h : inserts e = false ∧ chooses e = false) :
    Quiet (Prog.await e) := .await h fun _ _ => trivial

theorem harmless_await {e : TunnelCall (Except TunnelError α)} (h : inserts e = false) : Harmless (Prog.await e) :=
  .await h fun _ _ => trivial

theorem harmless_raise (e : TunnelError) : Harmless (.raise e : TunnelM α) := trivial

theorem harmless_ret (a : α) : Harmless (.ret a : TunnelM α) := trivial

theorem Harmless.catching {handler : TunnelError → TunnelM α} (hx : Harmless x) (hh : ∀ e, Harmless (handler e)) :
    Harmless (x.catching handler) := Prog.Performs.catching hx hh

theorem Harmless.bind (hx : Harmless x) (hf : ∀ a, Harmless (f a)) : Harmless (x.bind f) :=
  Prog.Performs.bind hx fun a _ => hf a

theorem harmless_deleteLogged (id : String) : Harmless (deleteLogged id) := by
  refine (harmless_await rfl).catching fun e => ?_
  cases e <;> trivial

theorem harmless_cleanupFailed (pf : PortForward) (proc registered : Bool) :
    Harmless (cleanupFailed pf proc registered) := by
  refine Harmless.bind (quiet_call ⟨rfl, rfl⟩).harmless fun entry => ?_
  dsimp only
  split
  · exact (harmless_await rfl).bind fun _ => harmless_deleteLogged pf.id
  · exact harmless_deleteLogged pf.id

theorem harmless_closeTunnel (id : String) : Harmless (closeTunnel id) := by
  refine Harmless.bind (quiet_call ⟨rfl, rfl⟩).harmless fun entry => ?_
  dsimp only
  split
  · exact (harmless_await rfl).bind fun _ => harmless_await rfl
  · exact harmless_await rfl

theorem harmless_stopped (jobId : String) : Harmless (stopped jobId) :=
  (harmless_await rfl).bind fun _ => harmless_ret _

/-- What follows the insert of an opened tunnel, whatever it answers. -/
theorem harmless_inserted (pf : PortForward) {rest : TunnelM Unit}
    {rollback : Bool → Bool → TunnelError → TunnelM Unit}
    (hrest : Harmless rest) (hrollback : ∀ proc registered e, Harmless (rollback proc registered e))
    (r : Except TunnelError Unit) : Harmless ((Prog.ofExcept r : TunnelM Unit).attempt.bind fun inserted =>
      match inserted with
      | .error e => rollback true false e
      | .ok _ => (Prog.call (.add (processOf pf))).bind fun _ => rest.catching (rollback true true)) := by
  cases r with
  | error e => exact hrollback true false e
  | ok _ => exact (quiet_call ⟨rfl, rfl⟩).harmless.bind fun _ => hrest.catching (hrollback true true)

/-- The tunnel is opened before its one row is inserted. -/
theorem opens_openTunnel (pf : PortForward) (immediate : TunnelError) {rest : TunnelM Unit}
    {rollback : Bool → Bool → TunnelError → TunnelM Unit} (hrest : Harmless rest)
    (hrollback : ∀ proc registered e, Harmless (rollback proc registered e)) :
    Opens pf.localPort (openTunnel pf immediate rest rollback) := by
  refine Opens.quiet_bind (Prog.Performs.attempt (quiet_await ⟨rfl, rfl⟩)).any fun proc => ?_
  cases proc with
  | error e => exact opens_of_harmless (hrollback false false e)
  | ok _ =>
    refine Opens.quiet_bind (quiet_call ⟨rfl, rfl⟩) fun exited => ?_
    cases exited with
    | true => exact opens_of_harmless (hrollback true false immediate)
    | false =>
      -- The insert is the next effect; whatever it answers, nothing is in hand then.
      have hafter := harmless_inserted pf hrest hrollback
      constructor
      · exact ⟨fun r p => not_inHand_of_harmless (hafter r) p, fun r => checked_of_harmless (hafter r)⟩
      · rintro p ⟨-, hport | ⟨r, hr⟩⟩
        · exact hport.symm
        · exact absurd hr (not_inHand_of_harmless (hafter r) p)

/-- A listing before the port is chosen. -/
theorem checked_list {g : List PortForward → TunnelM α} (hg : ∀ rows, Checked (g rows))
    (hfree : ∀ rows p, InHand p (g rows) → ∀ pf ∈ rows, pf.localPort ≠ p) :
    Checked ((Prog.await .listPortForwards).bind g) := by
  constructor
  · intro r p hr
    cases r with
    | error e => exact hr.elim
    | ok rows => exact ⟨rows, rfl, hfree rows p hr⟩
  · intro r
    cases r with
    | error e => trivial
    | ok rows => exact hg rows

/-- An allocation whose failure ends the creation. -/
theorem checked_allocate {workerId : String} {handler : TunnelError → TunnelM (ℕ × ℕ)} {g : ℕ × ℕ → TunnelM α}
    (hhandler : ∀ e, ∃ e', handler e = .raise e') (hg : ∀ ports, Opens ports.2 (g ports)) :
    Checked (((Prog.await (.allocatePorts workerId)).catching handler).bind g) := by
  have hstop (e : TunnelError) (p : ℕ) (hr : InHand p ((handler e).bind g)) : False := by
    obtain ⟨e', he⟩ := hhandler e
    rw [he] at hr
    exact hr
  constructor
  · intro r p hr
    cases r with
    | error e => exact (hstop e p hr).elim
    | ok ports =>
      obtain ⟨remotePort, localPort⟩ := ports
      exact ⟨remotePort, by rw [(hg (remotePort, localPort)).2 p hr]⟩
  · intro r
    cases r with
    | error e =>
      obtain ⟨e', he⟩ := hhandler e
      show Checked ((handler e).bind g)
      rw [he]
      trivial
    | ok ports => exact (hg ports).1

theorem checked_tunnelsCreate (workerId : String) (localPort remotePort : ℕ) :
    Checked (tunnelsCreate workerId localPort remotePort) := by
  refine Checked.quiet_bind (quiet_await ⟨rfl, rfl⟩) fun worker => ?_
  cases worker with
  | none => trivial
  | some worker =>
    have hopens (existing : List PortForward) :
      Opens localPort (if existing.any fun p => p.localPort = localPort then
        refuse 409 ("Local port " ++ toString localPort ++ " already forwarded")
      else (Prog.call .uuid).bind fun id =>
        openTunnel { id := id, workerId := worker, localPort := localPort, remotePort := remotePort }
          (.httpException 502 "SSH tunnel setup exited immediately") (Prog.await .invalidate)
          fun proc registered e =>
            (cleanupFailed { id := id, workerId := worker, localPort := localPort, remotePort := remotePort } proc
              registered).bind fun _ => .raise e) := by
      split
      · exact opens_of_harmless (harmless_raise _)
      · refine Opens.quiet_bind (quiet_call ⟨rfl, rfl⟩) fun id => ?_
        refine opens_openTunnel _ _ (harmless_await rfl) fun proc registered e => ?_
        exact (harmless_cleanupFailed _ proc registered).bind fun _ => harmless_raise e
    refine checked_list (fun rows => (hopens rows).1) fun rows p hp pf hpf => ?_
    have hport := (hopens rows).2 p hp
    dsimp only at hp
    split at hp
    · exact hp.elim
    · next hfree =>
      intro heq
      exact hfree (List.any_eq_true.mpr ⟨pf, hpf, decide_eq_true (heq.trans hport)⟩)

theorem checked_marimoCreate (workerId : String) (readyTimeout : ℕ) :
    Checked (marimoCreate workerId readyTimeout) := by
  refine Checked.quiet_bind (quiet_await ⟨rfl, rfl⟩) fun worker => ?_
  cases worker with
  | none => trivial
  | some worker =>
    dsimp only
    split
    · trivial
    · refine checked_allocate (fun e => ?_) fun ports => ?_
      · cases e <;> exact ⟨_, rfl⟩
      · obtain ⟨remotePort, localPort⟩ := ports
        refine Opens.quiet_bind (quiet_await ⟨rfl, rfl⟩) fun job => ?_
        obtain ⟨jobId, failed⟩ := job
        cases failed with
        | true => exact opens_of_harmless (harmless_raise _)
        | false =>
          refine Opens.quiet_bind (quiet_call ⟨rfl, rfl⟩) fun id => ?_
          refine Opens.bind_harmless (opens_openTunnel _ _ ?_ fun proc registered e => ?_) fun _ =>
            harmless_await rfl
          · refine (harmless_await rfl).bind fun _ => ?_
            exact (quiet_call ⟨rfl, rfl⟩).harmless.bind fun _ => harmless_await rfl
          · refine (harmless_cleanupFailed _ proc registered).bind fun _ => ?_
            refine Harmless.bind ((harmless_stopped jobId).catching fun e => ?_) fun _ => ?_
            · cases e <;> trivial
            · cases e <;> trivial

theorem harmless_tunnelsDelete (tunnelId : String) : Harmless (tunnelsDelete tunnelId) := by
  refine (harmless_await rfl).bind fun tunnels => ?_
  split
  · trivial
  · exact (harmless_closeTunnel _).bind fun _ => harmless_await rfl

theorem harmless_marimoDelete (sessionId : String) : Harmless (marimoDelete sessionId) := by
  refine (harmless_await rfl).bind fun session => ?_
  cases session with
  | none => trivial
  | some session =>
    have hstop : Harmless (stopMarimoSession session) := by
      refine (harmless_await rfl).bind fun stopped => ?_
      split
      · refine (harmless_closeTunnel _).bind fun _ => ?_
        exact (harmless_await rfl).bind fun _ => harmless_await rfl
      · trivial
    refine hstop.catching fun e => ?_
    cases e <;> trivial

/-- An operation starts without a port, and checks before it inserts. -/
theorem checked_of_operation {x : TunnelM Unit} (h : Operation x) : Checked x ∧ ∀ p, ¬InHand p x := by
  have hresolve (workerId : String) (g : Option String → TunnelM Unit)
    (hg : ∀ worker p, ¬InHand p (g worker)) (p : ℕ) :
      ¬InHand p ((Prog.await (.resolveWorker workerId)).bind g) := by
    intro hp
    rcases inHand_bind hp with hp | ⟨worker, hp⟩
    · exact not_inHand_of_harmless (harmless_await rfl) p hp
    · exact hg worker p hp
  cases h with
  | tunnelsCreate workerId localPort remotePort =>
    refine ⟨checked_tunnelsCreate workerId localPort remotePort, hresolve workerId _ fun worker p hp => ?_⟩
    cases worker with
    | none => exact hp
    | some worker => cases hp.1
  | marimoCreate workerId readyTimeout =>
    refine ⟨checked_marimoCreate workerId readyTimeout, hresolve workerId _ fun worker p hp => ?_⟩
    cases worker with
    | none => exact hp
    | some worker =>
      dsimp only at hp
      split at hp
      · exact hp
      · cases hp.1
  | tunnelsDelete tunnelId =>
    exact ⟨checked_of_harmless (harmless_tunnelsDelete tunnelId),
      not_inHand_of_harmless (harmless_tunnelsDelete tunnelId)⟩
  | marimoDelete sessionId =>
    exact ⟨checked_of_harmless (harmless_marimoDelete sessionId),
      not_inHand_of_harmless (harmless_marimoDelete sessionId)⟩
  | reapOnce =>
    exact ⟨checked_of_harmless (quiet_call ⟨rfl, rfl⟩).harmless,
      not_inHand_of_harmless (quiet_call ⟨rfl, rfl⟩).harmless⟩
  | exits id =>
    exact ⟨checked_of_harmless (quiet_call ⟨rfl, rfl⟩).harmless,
      not_inHand_of_harmless (quiet_call ⟨rfl, rfl⟩).harmless⟩

def ports (s : TunnelWorld) : List ℕ := s.portForwards.map (·.localPort)

structure Owned (c : TunnelPool) : Prop where
  rows : (ports c.state).Nodup
  apart : ∀ t t' p, t ≠ t' → Holds c t p → ¬Holds c t' p
  free : ∀ t p, Holds c t p → p ∉ ports c.state
  checked : ∀ th ∈ c.threads, Checked th.prog

/-- What an effect does to the rows. -/
theorem ports_of_handle {β : Type} {e : TunnelCall β} {t : ℕ} {w : TunnelAnswer} {s s' : TunnelWorld} {b : β}
    (h : tunnelInterp.handle e t w s = some (s', b)) :
    (ports s').Sublist (ports s) ∨ ∃ p, insertsPort p e ∧ ports s' = ports s ++ [p] := by
  simp only [tunnelInterp] at h
  have hinsert (pf : PortForward) : ports (s.insertRow t pf) = ports s ++ [pf.localPort] := List.map_append
  have hdelete (id : String) : (ports (s.deleteRow t id)).Sublist (ports s) := by
    unfold ports TunnelWorld.deleteRow
    exact List.filter_sublist.map _
  cases e with
  | insertPortForward pf =>
    cases w with
    | done =>
      simp only [tunnelHandle] at h
      split at h
      · cases h
        exact .inl (List.Sublist.refl _)
      · cases h
        exact .inr ⟨pf.localPort, rfl, hinsert pf⟩
    | fails x executed =>
      simp only [tunnelHandle, Option.some.injEq, Prod.mk.injEq] at h
      obtain ⟨rfl, -⟩ := h
      split
      · exact .inr ⟨pf.localPort, rfl, hinsert pf⟩
      · exact .inl (List.Sublist.refl _)
    | _ => cases h
  | deletePortForward id =>
    cases w with
    | done =>
      cases h
      exact .inl (hdelete id)
    | fails x executed =>
      simp only [tunnelHandle, Option.some.injEq, Prod.mk.injEq] at h
      obtain ⟨rfl, -⟩ := h
      split
      · exact .inl (hdelete id)
      · exact .inl (List.Sublist.refl _)
    | _ => cases h
  | uuid =>
    cases w with
    | text id =>
      simp only [tunnelHandle, Option.ite_none_right_eq_some, Option.some.injEq, Prod.mk.injEq] at h
      obtain ⟨-, rfl, -⟩ := h
      exact .inl (List.Sublist.refl _)
    | _ => cases h
  | remove id registered =>
    cases w with
    | done =>
      simp only [tunnelHandle] at h
      split at h
      · cases h
        exact .inl (List.Sublist.refl _)
      · cases h
        exact .inl (List.Sublist.refl _)
    | _ => cases h
  | _ =>
    -- The other effects leave the rows as they are.
    left
    cases w with
    | fails x executed =>
      first
      | cases h
        done
      | simp only [tunnelHandle, Option.some.injEq, Prod.mk.injEq] at h
        obtain ⟨rfl, -⟩ := h
        first
        | exact List.Sublist.refl _
        | split <;> exact List.Sublist.refl _
    | _ =>
      cases h <;> exact List.Sublist.refl _

/-- A port that has just been chosen is not that of a row. -/
theorem free_of_chooses {β : Type} {e : TunnelCall β} {k : β → TunnelM Unit} {t : ℕ} {w : TunnelAnswer}
    {s s' : TunnelWorld} {b : β} (hfollows : Follows e k) (h : tunnelInterp.handle e t w s = some (s', b))
    (hp : InHand p (k b)) (hchoose : chooses e = true)
    (hallocate : ∀ workerId remotePort localPort, (⟨β, e⟩ : Σ β, TunnelCall β) = ⟨_, .allocatePorts workerId⟩ →
      w = .ports remotePort localPort → ∀ pf ∈ s.portForwards, pf.localPort ≠ localPort) : p ∉ ports s := by
  simp only [tunnelInterp] at h
  cases e with
  | listPortForwards =>
    obtain ⟨rows, hrows, hfree⟩ := hfollows b p hp
    subst hrows
    cases w with
    | done =>
      cases h
      intro hmem
      obtain ⟨pf, hpf, hport⟩ := List.mem_map.mp hmem
      exact hfree pf hpf hport
    | _ => cases h
  | allocatePorts workerId =>
    obtain ⟨remotePort, hports⟩ := hfollows b p hp
    subst hports
    cases w with
    | ports remote localPort =>
      cases h
      intro hmem
      obtain ⟨pf, hpf, hport⟩ := List.mem_map.mp hmem
      exact hallocate workerId remotePort p rfl rfl pf hpf hport
    | _ => cases h
  | _ => cases hchoose

theorem holds_set {c : TunnelPool} {s : TunnelWorld} {t t' : ℕ} {th th' : Thread TunnelCall Empty TunnelError Unit}
    (ht : c.threads[t]? = some th) : Holds ⟨s, c.threads.set t th'⟩ t' p ↔
      if t' = t then InHand p th'.prog else Holds c t' p := by
  unfold Holds
  rw [List.getElem?_set]
  have hlt : t < c.threads.length := (List.getElem?_eq_some_iff.mp ht).1
  by_cases heq : t' = t
  · subst heq
    simp [hlt]
  · rw [if_neg heq, if_neg (Ne.symm heq)]

/-- A new operation. -/
theorem owned_spawn {c : TunnelPool} {x : TunnelM Unit} (h : Owned c) (hx : Operation x) :
    Owned ⟨c.state, c.threads ++ [⟨x, []⟩]⟩ := by
  obtain ⟨hchecked, hnone⟩ := checked_of_operation hx
  have hholds (t p : ℕ) (hp : Holds ⟨c.state, c.threads ++ [⟨x, []⟩]⟩ t p) : Holds c t p := by
    obtain ⟨th, hth, hin⟩ := hp
    rw [List.getElem?_append] at hth
    split at hth
    · exact ⟨th, hth, hin⟩
    · rw [List.mem_singleton.mp (List.mem_of_getElem? hth)] at hin
      exact absurd hin (hnone p)
  constructor
  · exact h.rows
  · intro t t' p hne hp hp'
    exact h.apart t t' p hne (hholds t p hp) (hholds t' p hp')
  · intro t p hp
    exact h.free t p (hholds t p hp)
  · intro th hth
    rcases List.mem_append.mp hth with hth | hth
    · exact h.checked th hth
    · rw [List.mem_singleton.mp hth]
      exact hchecked

/-- An effect of one thread. -/
theorem owned_perform {c : TunnelPool} (h : Owned c) {t : ℕ} {w : TunnelAnswer} {β : Type} {e : TunnelCall β}
    {k : β → TunnelM Unit} {held : List Empty} {s : TunnelWorld} {b : β}
    (ht : c.threads[t]? = some ⟨.perform e k, held⟩) (hh : tunnelInterp.handle e t w c.state = some (s, b))
    (hexclusive : Exclusive c (.go t w)) : Owned ⟨s, c.threads.set t ⟨k b, held⟩⟩ := by
  obtain ⟨hfollows, hchecked⟩ : Checked (.perform e k) := h.checked _ (List.mem_of_getElem? ht)
  have hstep : c.step tunnelInterp (.go t w) = some ⟨s, c.threads.set t ⟨k b, held⟩⟩ := by
    simp [Pool.step, Pool.advance, ht, hh]
  have hafter (t' p : ℕ) : Holds ⟨s, c.threads.set t ⟨k b, held⟩⟩ t' p ↔
    if t' = t then InHand p (k b) else Holds c t' p :=
    holds_set ht
  -- The thread has the port already, or chooses it now.
  have hown (p : ℕ) (hp : InHand p (k b)) : p ∉ ports c.state ∧ ∀ t', t' ≠ t → ¬Holds c t' p := by
    cases hchoose : chooses e with
    | false =>
      have hbefore : Holds c t p := ⟨_, ht, hchoose, .inr ⟨b, hp⟩⟩
      exact ⟨h.free t p hbefore, fun t' hne => h.apart t t' p (Ne.symm hne) hbefore⟩
    | true =>
      have hbefore : ¬Holds c t p := by
        rintro ⟨th, hth, hin⟩
        rw [ht, Option.some.injEq] at hth
        subst hth
        rw [InHand, hchoose] at hin
        exact Bool.noConfusion hin.1
      constructor
      · refine free_of_chooses hfollows hh hp hchoose fun workerId remotePort localPort he hw => ?_
        obtain ⟨rfl, he⟩ := Sigma.mk.inj he
        obtain rfl := eq_of_heq he
        exact hexclusive.2 workerId remotePort localPort ⟨k, held, ht⟩ hw
      · exact hexclusive.1 _ p hstep ((hafter t p).mpr (by rw [if_pos rfl]; exact hp)) hbefore
  have hthreads : ∀ th ∈ c.threads.set t ⟨k b, held⟩, Checked th.prog := by
    intro th hth
    rcases List.mem_or_eq_of_mem_set hth with hth | rfl
    · exact h.checked th hth
    · exact hchecked b
  have hapart : ∀ t₁ t₂ p, t₁ ≠ t₂ → Holds ⟨s, c.threads.set t ⟨k b, held⟩⟩ t₁ p →
      ¬Holds ⟨s, c.threads.set t ⟨k b, held⟩⟩ t₂ p := by
    intro t₁ t₂ p hne hp hp'
    rw [hafter] at hp hp'
    split at hp
    · next heq =>
      subst heq
      rw [if_neg (Ne.symm hne)] at hp'
      exact (hown p hp).2 t₂ (Ne.symm hne) hp'
    · next hne₁ =>
      split at hp'
      · exact (hown p hp').2 t₁ hne₁ hp
      · exact h.apart t₁ t₂ p hne hp hp'
  rcases ports_of_handle hh with hrows | ⟨q, hinsert, hrows⟩
  · refine ⟨h.rows.sublist hrows, hapart, fun t' p hp => ?_, hthreads⟩
    rw [hafter] at hp
    split at hp
    · exact fun hmem => (hown p hp).1 (hrows.subset hmem)
    · exact fun hmem => h.free t' p hp (hrows.subset hmem)
  · -- The row gets the port that the thread had in hand.
    have hchoose : chooses e = false := by
      cases e with
      | insertPortForward pf => rfl
      | _ => exact hinsert.elim
    have hbefore : Holds c t q := ⟨_, ht, hchoose, .inl hinsert⟩
    have hnothing (p : ℕ) : ¬InHand p (k b) := by
      cases e with
      | insertPortForward pf => exact hfollows b p
      | _ => exact hinsert.elim
    refine ⟨?_, hapart, fun t' p hp => ?_, hthreads⟩
    · show (ports s).Nodup
      rw [hrows, List.nodup_append]
      refine ⟨h.rows, List.pairwise_singleton _ q, fun p hp q' hq' heq => ?_⟩
      rw [List.mem_singleton.mp hq'] at heq
      exact h.free t q hbefore (heq ▸ hp)
    · rw [hafter] at hp
      split at hp
      · exact absurd hp (hnothing p)
      · next hne =>
        show p ∉ ports s
        rw [hrows, List.mem_append, List.mem_singleton]
        rintro (hmem | rfl)
        · exact h.free t' p hp hmem
        · exact h.apart t t' p (Ne.symm hne) hbefore hp

/-- One step of the pool. -/
theorem owned_step {c c' : TunnelPool} {ev : TunnelEvent} (h : Owned c) (hoperates : Operates c ev)
    (hexclusive : Exclusive c ev)
    (hstep : c.step tunnelInterp ev = some c') : Owned c' := by
  obtain ⟨x, rfl, rfl⟩ | ⟨t, w, β, e, k, held, s, b, rfl, ht, hh, rfl⟩ | ⟨t, w, l, k, held, rfl, ht, -, rfl⟩ |
    ⟨t, w, l, k, held, rfl, ht, rfl⟩ | ⟨t, e, rfl, -, rfl⟩ | ⟨e, rfl, rfl⟩ := Pool.step_cases hstep
  · exact owned_spawn h hoperates
  · exact owned_perform h ht hh hexclusive
  · exact l.elim
  · exact l.elim
  · exact hoperates.elim
  · exact hoperates.elim

/-- In a run in which every port is chosen exclusively, the rows have different local ports at every moment. -/
theorem distinct_local_ports {s₀ : TunnelWorld} (h₀ : (ports s₀).Nodup) {c : TunnelPool}
    (hc : Pool.Reachable tunnelInterp (fun c ev => Operates c ev ∧ Exclusive c ev) s₀ c) :
    (ports c.state).Nodup := by
  suffices h : Owned c from h.rows
  induction hc with
  | init =>
    constructor
    · exact h₀
    · rintro t t' p - ⟨th, hth, -⟩
      cases hth
    · rintro t p ⟨th, hth, -⟩
      cases hth
    · exact fun th hth => (nomatch hth)
  | step _ hok hstep ih => exact owned_step ih hok.1 hok.2 hstep

def Aims (q : ℕ) (x : TunnelM α) : Prop :=
  x.Performs (fun _ _ _ => True) (fun _ e => ∀ p, insertsPort p e → p = q) fun _ => True

theorem aims_of_harmless (h : Harmless x) : Aims q x := by
  refine h.mono (fun _ e he p hp => ?_) fun _ h => h
  cases e with
  | insertPortForward pf => cases he
  | _ => exact hp.elim

theorem Aims.eq_of_inHand (h : Aims q x) (hp : InHand p x) : p = q := by
  induction x with
  | ret a => exact hp.elim
  | raise e => exact hp.elim
  | perform e k ih =>
    obtain ⟨-, hinsert | ⟨b, hb⟩⟩ := hp
    · exact h.1 p hinsert
    · exact ih b (h.2 b trivial) hb
  | acquire l k ih => exact l.elim
  | release l k ih => exact l.elim

theorem aims_openTunnel (pf : PortForward) (immediate : TunnelError) {rest : TunnelM Unit}
    {rollback : Bool → Bool → TunnelError → TunnelM Unit} (hrest : Harmless rest)
    (hrollback : ∀ proc registered e, Harmless (rollback proc registered e)) :
    Aims pf.localPort (openTunnel pf immediate rest rollback) := by
  have hopen : Aims pf.localPort (Prog.await (.sshPortForward pf.id pf.localPort pf.remotePort)) :=
    aims_of_harmless (harmless_await rfl)
  refine Prog.Performs.bind (Prog.Performs.attempt hopen).any fun proc _ => ?_
  cases proc with
  | error e => exact aims_of_harmless (hrollback false false e)
  | ok _ =>
    refine Prog.Performs.bind (aims_of_harmless (quiet_call ⟨rfl, rfl⟩).harmless) fun exited _ => ?_
    cases exited with
    | true => exact aims_of_harmless (hrollback true false immediate)
    | false =>
      refine ⟨fun p hp => hp.symm, fun r _ => ?_⟩
      exact aims_of_harmless (harmless_inserted pf hrest hrollback r)

theorem aims_tunnelsCreate (workerId : String) (localPort remotePort : ℕ) :
    Aims localPort (tunnelsCreate workerId localPort remotePort) := by
  refine Prog.Performs.bind (aims_of_harmless (harmless_await rfl)) fun worker _ => ?_
  cases worker with
  | none => trivial
  | some worker =>
    refine Prog.Performs.bind (aims_of_harmless (harmless_await rfl)) fun existing _ => ?_
    dsimp only
    split
    · trivial
    · refine Prog.Performs.bind (aims_of_harmless (quiet_call ⟨rfl, rfl⟩).harmless) fun id _ => ?_
      refine aims_openTunnel { id := id, workerId := worker, localPort := localPort, remotePort := remotePort } _
        (harmless_await rfl) fun proc registered e => ?_
      exact (harmless_cleanupFailed _ proc registered).bind fun _ => harmless_raise e

/-- The operations of a run: the `n`-th one inserts rows with the port `port n` only, and no port is allocated. -/
def Apart (port : ℕ → ℕ) (c : TunnelPool) : TunnelEvent → Prop
  | .spawn x => Operation x ∧ Aims (port c.threads.length) x
  | .go _ w => ∀ remotePort localPort, w ≠ .ports remotePort localPort
  | _ => False

variable {port : ℕ → ℕ} {c c' : TunnelPool} {ev : TunnelEvent} {s₀ : TunnelWorld}

def Aimed (port : ℕ → ℕ) (c : TunnelPool) : Prop := ∀ t th, c.threads[t]? = some th → Aims (port t) th.prog

theorem aimed_step (h : Aimed port c) (hok : Apart port c ev) (hstep : c.step tunnelInterp ev = some c') :
    Aimed port c' := by
  obtain ⟨x, rfl, rfl⟩ | ⟨t, w, β, e, k, held, s, b, rfl, ht, -, rfl⟩ | ⟨t, w, l, k, held, rfl, -⟩ |
    ⟨t, w, l, k, held, rfl, -⟩ | ⟨t, e, rfl, -⟩ | ⟨e, rfl, -⟩ := Pool.step_cases hstep
  · intro t th hth
    rw [List.getElem?_append] at hth
    split at hth
    · exact h t th hth
    · next hnew =>
      obtain rfl := List.mem_singleton.mp (List.mem_of_getElem? hth)
      have hlast : t - c.threads.length < 1 := (List.getElem?_eq_some_iff.mp hth).1
      have ht : t = c.threads.length := by omega
      exact ht ▸ hok.2
  · intro t' th hth
    rw [List.getElem?_set] at hth
    split at hth
    · next heq =>
      subst heq
      split at hth
      · cases hth
        exact (h _ _ ht).2 b trivial
      · cases hth
    · exact h t' th hth
  · exact l.elim
  · exact l.elim
  · exact hok.elim
  · exact hok.elim

/-- Operations with different ports meet the condition in every order. -/
theorem reachable_of_apart (hport : Function.Injective port) (hc : Pool.Reachable tunnelInterp (Apart port) s₀ c) :
    Pool.Reachable tunnelInterp (fun c ev => Operates c ev ∧ Exclusive c ev) s₀ c := by
  suffices h : Aimed port c ∧ Pool.Reachable tunnelInterp (fun c ev => Operates c ev ∧ Exclusive c ev) s₀ c from h.2
  induction hc with
  | init => exact ⟨fun t th hth => (nomatch hth), .init⟩
  | @step _ _ ev _ hok hstep ih =>
    obtain ⟨haimed, hreach⟩ := ih
    refine ⟨aimed_step haimed hok hstep, hreach.step ?_ hstep⟩
    cases ev with
    | spawn x => exact ⟨hok.1, trivial⟩
    | go t w =>
      refine ⟨trivial, ?_, fun _ remotePort localPort _ hw => absurd hw (hok remotePort localPort)⟩
      rintro c'' p hstep' ⟨th, hth, hin⟩ - t' hne ⟨th', hth', hin'⟩
      have howner := (aimed_step haimed hok hstep' t th hth).eq_of_inHand hin
      have hother := (haimed t' th' hth').eq_of_inHand hin'
      exact hne (hport (hother.symm.trans howner))
    | cancel t e => exact hok.elim
    | crash e => exact hok.elim

/-- Beside the row of another tunnel, two requests for different ports. -/
def twoCreations : TunnelPool where
  state :=
    { portForwards := [{ id := "notebook", workerId := "gpu-rig-1", localPort := 9000, remotePort := 9000 }] }
  threads := [⟨tunnelsCreate "gpu-rig-1" 8080 80, []⟩, ⟨tunnelsCreate "gpu-rig-1" 8081 81, []⟩]

/-- The two in turns: both list the rows, and have their ports in hand, before either inserts. -/
def alternating : List TunnelEvent :=
  [(0, .worker (some "gpu-rig-1")), (1, .worker (some "gpu-rig-1")), (0, .done), (1, .done), (1, .text "api"),
    (0, .text "web"), (0, .done), (1, .done), (1, .done), (0, .done), (1, .done), (0, .done)].map
      fun g => .go g.1 g.2

theorem apart_twoCreations : Pool.Reachable tunnelInterp (Apart (8080 + ·)) twoCreations.state twoCreations := by
  have hfirst : Apart (8080 + ·) ⟨twoCreations.state, []⟩ (.spawn (tunnelsCreate "gpu-rig-1" 8080 80)) :=
    ⟨.tunnelsCreate _ _ _, aims_tunnelsCreate _ _ _⟩
  have hsecond : Apart (8080 + ·) ⟨twoCreations.state, [⟨tunnelsCreate "gpu-rig-1" 8080 80, []⟩]⟩
      (.spawn (tunnelsCreate "gpu-rig-1" 8081 81)) :=
    ⟨.tunnelsCreate _ _ _, aims_tunnelsCreate _ _ _⟩
  exact (Pool.Reachable.init.step hfirst rfl).step hsecond rfl

def answersNoPorts : TunnelEvent → Bool
  | .go _ (.ports _ _) => false
  | .go _ _ => true
  | _ => false

theorem distinct_local_ports_alternating :
    ∃ c : TunnelPool, ports c.state = [9000, 8081, 8080] ∧ (ports c.state).Nodup := by
  have hrun : (twoCreations.run tunnelInterp alternating).map (fun c => ports c.state) =
      some [9000, 8081, 8080] := by
    decide +kernel
  obtain ⟨c, hc, hports⟩ := Option.map_eq_some_iff.mp hrun
  have happart : Pool.Reachable tunnelInterp (Apart (8080 + ·)) twoCreations.state c := by
    refine Pool.Reachable.run apart_twoCreations (fun d ev hev => ?_) hc
    have hanswer := List.all_eq_true.mp (show alternating.all answersNoPorts = true from rfl) ev hev
    cases ev with
    | go t w =>
      rintro remotePort localPort rfl
      cases hanswer
    | _ => cases hanswer
  have hreach := reachable_of_apart (fun _ _ => Nat.add_left_cancel) happart
  exact ⟨c, hports, distinct_local_ports (by decide) hreach⟩

/-- Two requests for one port look at the rows before either of them inserts. -/
def raced : List TunnelEvent :=
  ([.spawn (tunnelsCreate "gpu-rig-1" 8080 80), .spawn (tunnelsCreate "gpu-rig-1" 8080 80)] : List TunnelEvent) ++
    ([(0, .worker (some "gpu-rig-1")), (0, .done), (1, .worker (some "gpu-rig-1")), (1, .done), (0, .text "web"),
      (0, .done), (0, .done), (0, .done), (1, .text "api"), (1, .done), (1, .done),
      (1, .done)] : List (ℕ × TunnelAnswer)).map fun g => .go g.1 g.2

/-- Both rows have this port. -/
theorem not_distinct_local_ports : ¬∀ (s₀ : TunnelWorld) (c : TunnelPool), (ports s₀).Nodup →
    Pool.Reachable tunnelInterp Operates s₀ c → (ports c.state).Nodup := by
  intro h
  have hrun : (Pool.run tunnelInterp ⟨{}, []⟩ raced).map (fun c => ports c.state) = some [8080, 8080] := by
    decide +kernel
  obtain ⟨c, hc, hports⟩ := Option.map_eq_some_iff.mp hrun
  have hreach : Pool.Reachable tunnelInterp Operates {} c := by
    refine Pool.Reachable.run .init (fun d ev hev => ?_) hc
    rcases List.mem_append.mp hev with hev | hev
    · simp only [List.mem_cons, List.not_mem_nil, or_false, or_self] at hev
      rw [hev]
      exact .tunnelsCreate _ _ _
    · obtain ⟨g, -, rfl⟩ := List.mem_map.mp hev
      trivial
  have hnodup := h {} c List.nodup_nil hreach
  rw [hports] at hnodup
  exact absurd hnodup (by decide)

end WorkerHarness.TunnelPorts
