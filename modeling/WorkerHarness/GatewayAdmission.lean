import WorkerHarness.GatewayLedger
import WorkerHarness.CoroutineEffects

/-!
# Admission to the terminal gateway

In every run each session has at most as many attachments as allowed, an attachment is active
exactly when it was reserved and neither evicted nor released, and a reservation at capacity evicts
the attachment that has been idle longest.
-/

namespace WorkerHarness.GatewayAdmission

open Coroutines Gateway GatewayWorld

variable {cfg : GatewayConfig} {s s' s'' : GatewayWorld} {t t' a : ℕ} {session : String} {α β : Type}

structure Admitted (cfg : GatewayConfig) (s : GatewayWorld) : Prop where
  ledger : Ledger s
  bounded : Bounded cfg s

def Own (t : ℕ) (s s' : GatewayWorld) : Prop :=
  ∀ a o, s.objects[a]? = some o → o.maker = t → (∃ o', s'.objects[a]? = some o' ∧ o'.maker = t) ∧
    (∀ session, (session, a) ∈ s'.reserved ↔ (session, a) ∈ s.reserved) ∧ (a ∈ s'.releases ↔ a ∈ s.releases)

def Fresh (t a : ℕ) (s : GatewayWorld) : Prop :=
  ∃ o, s.objects[a]? = some o ∧ o.maker = t ∧ (∀ session, (session, a) ∉ s.reserved) ∧ a ∉ s.releases

def Held (t : ℕ) (session : String) (a : ℕ) (s : GatewayWorld) : Prop :=
  ∃ o, s.objects[a]? = some o ∧ o.maker = t ∧ (session, a) ∈ s.reserved

def promised (t : ℕ) (s : GatewayWorld) : {β : Type} → GatewayCall β → Prop
  | _, .reserve _ a => Fresh t a s
  | _, .release session a => Held t session a s
  | _, _ => True

def contract (cfg : GatewayConfig) : Contract GatewayCall GatewayLock GatewayWorld where
  inv := Admitted cfg
  fresh _ _ := True
  rely t _ := Own t
  guar t _ s s' := ∀ t', t' ≠ t → Own t' s s'
  assume _ _ _ := True
  pre e t _ s := promised t s e

theorem Own.refl (t : ℕ) (s : GatewayWorld) : Own t s s := fun _ o ho hm => ⟨⟨o, ho, hm⟩, fun _ => .rfl, .rfl⟩

theorem Own.trans (h : Own t s s') (h' : Own t s' s'') : Own t s s'' := by
  intro a o ho hm
  obtain ⟨⟨o', ho', hm'⟩, hres, hrel⟩ := h a o ho hm
  obtain ⟨hobj, hres', hrel'⟩ := h' a o' ho' hm'
  exact ⟨hobj, fun session => (hres' session).trans (hres session), hrel'.trans hrel⟩

theorem contract_coherent : (contract cfg).Coherent where
  rely_refl t _ s := Own.refl t s
  rely_trans h h' := Own.trans h h'
  guar_rely hne _ _ _ hg := hg _ (Ne.symm hne)
  guar_fresh _ _ _ h := h
  guar_res _ _ _ _ h := h

def Stable (t : ℕ) (J : GatewayWorld → Prop) : Prop := ∀ s s', J s → Own t s s' → J s'

theorem stable_true : Stable t fun _ => True := fun _ _ h _ => h

theorem stable_fresh : Stable t (Fresh t a) := by
  rintro s s' ⟨o, ho, hm, hres, hrel⟩ hown
  obtain ⟨⟨o', ho', hm'⟩, hres', hrel'⟩ := hown a o ho hm
  exact ⟨o', ho', hm', fun session hr => hres session ((hres' session).mp hr), fun hr => hrel (hrel'.mp hr)⟩

theorem stable_held : Stable t (Held t session a) := by
  rintro s s' ⟨o, ho, hm, hres⟩ hown
  obtain ⟨⟨o', ho', hm'⟩, hres', -⟩ := hown a o ho hm
  exact ⟨o', ho', hm', (hres' session).mpr hres⟩

/-- The effects that neither create, nor reserve, nor release an attachment. -/
def Quiet (β : Type) : GatewayCall β → Prop
  | .newAttachment _ _ => False
  | .reserve _ _ => False
  | .release _ _ => False
  | _ => True

theorem promised_of_quiet {e : GatewayCall β} (he : Quiet β e) : promised t s e := by
  cases e <;> trivial

theorem own_of_modify {f : GatewayAttachment → GatewayAttachment} {b : ℕ} (hf : ∀ o, (f o).maker = o.maker) :
    Own t s { s with objects := s.objects.modify b f } := by
  intro a o ho hm
  refine ⟨⟨_, getElem?_modify_of_some ho, ?_⟩, fun _ => .rfl, .rfl⟩
  split
  · rw [hf, hm]
  · exact hm

theorem noteClientFrame_kept (o : GatewayAttachment) (data : ClientFrame) (now : ℚ) :
    (o.noteClientFrame data now).id = o.id ∧ (o.noteClientFrame data now).evict = o.evict ∧
      (o.noteClientFrame data now).maker = o.maker := by
  cases data with
  | bytes => exact ⟨rfl, rfl, rfl⟩
  | text => exact ⟨rfl, rfl, rfl⟩
  | resize rows cols =>
    unfold GatewayAttachment.noteClientFrame
    dsimp only
    split <;> exact ⟨rfl, rfl, rfl⟩

/-- A quiet effect keeps everything that the threads know. -/
theorem quiet_kept {e : GatewayCall β} {w : GatewayAnswer} {b : β} (he : Quiet β e) (h : Admitted cfg s)
    (hh : gatewayHandle cfg e t w s = some (s', b)) : Admitted cfg s' ∧ ∀ t', Own t' s s' := by
  have hsame : s' = s → Admitted cfg s' ∧ ∀ t', Own t' s s' := by
    rintro rfl
    exact ⟨h, fun t' => Own.refl t' s'⟩
  cases e with
  | newAttachment rows cols => exact he.elim
  | reserve sessionId a => exact he.elim
  | release sessionId a => exact he.elim
  | noteClientFrame a data =>
    cases w <;> cases hh
    next now =>
      exact ⟨⟨ledger_modify h.ledger (fun o => (noteClientFrame_kept o data now).1) fun o =>
        (noteClientFrame_kept o data now).2.1,
        bounded_of_same h.bounded rfl⟩, fun t' => own_of_modify fun o => (noteClientFrame_kept o data now).2.2⟩
  | countClose reason =>
    cases w <;> cases hh
    refine ⟨⟨?_, bounded_of_same h.bounded rfl⟩, fun t' a o ho hm => ⟨⟨o, ho, hm⟩, fun _ => .rfl, .rfl⟩⟩
    exact ⟨h.ledger.ids, h.ledger.keys, h.ledger.keyed, h.ledger.active_iff, h.ledger.once, h.ledger.created,
      h.ledger.released_created, h.ledger.victims_reserved, h.ledger.victims_nodup,
      h.ledger.counted, h.ledger.evict_iff⟩
  | pump a =>
    cases w <;> try cases hh
    · next replaced =>
        change (if replaced ∧ ¬(s.objects[a]?).any (·.evict) then none else some (s, Except.ok replaced)) = _ at hh
        split at hh
        · cases hh
        · cases hh
          exact hsame rfl
    · exact hsame rfl
  | requireOperator => cases w <;> cases hh <;> exact hsame rfl
  | attachInfo sessionId => cases w <;> cases hh <;> exact hsame rfl
  | sendJson message => cases w <;> cases hh <;> exact hsame rfl
  | close code reason => cases w <;> cases hh <;> exact hsame rfl
  | sleep => cases w <;> cases hh <;> exact hsame rfl
  | waitReleased victim => cases w <;> cases hh <;> exact hsame rfl
  | evicted a =>
    cases w <;> cases hh
    exact hsame rfl

/-- A new object belongs to the thread that creates it. -/
theorem newAttachment_kept {rows cols : Option ℤ} {w : GatewayAnswer} (h : Admitted cfg s)
    (hh : gatewayHandle cfg (.newAttachment rows cols) t w s = some (s', a)) :
    Admitted cfg s' ∧ (∀ t', t' ≠ t → Own t' s s') ∧ Fresh t a s' := by
  cases w <;> try cases hh
  next id now =>
    change (if id ∈ s.objects.map (·.id) then none else some _) = _ at hh
    split at hh
    · cases hh
    · next hid =>
      cases hh
      refine ⟨⟨ledger_create h.ledger hid rfl, bounded_of_same h.bounded rfl⟩, fun t' _ a o ho hm =>
        ⟨⟨o, by rw [List.getElem?_append_left (List.getElem?_eq_some_iff.mp ho).1, ho], hm⟩,
        fun _ => .rfl, .rfl⟩, ?_⟩
      refine ⟨_, by rw [List.getElem?_append_right (Nat.le_refl _), Nat.sub_self]; rfl, rfl,
        fun session hr => ?_, fun hr => ?_⟩
      · exact absurd (h.ledger.created session _ hr) (Nat.lt_irrefl _)
      · exact absurd (h.ledger.released_created _ hr) (Nat.lt_irrefl _)

theorem reserve_reserved {id session' : String} {b : ℕ} :
    (session', b) ∈ (s.reserve cfg session a id).reserved ↔ (session', b) = (session, a) ∨
    (session', b) ∈ s.reserved := by
  unfold GatewayWorld.reserve
  split <;> exact List.mem_cons

theorem reserve_releases {id : String} : (s.reserve cfg session a id).releases = s.releases := by
  unfold GatewayWorld.reserve
  split <;> rfl

theorem reserve_object (cfg : GatewayConfig) (session : String) (a : ℕ) (id : String) {b : ℕ}
    {o : GatewayAttachment}
    (ho : s.objects[b]? = some o) :
    ∃ o', (s.reserve cfg session a id).objects[b]? = some o' ∧ o'.maker = o.maker := by
  unfold GatewayWorld.reserve
  split
  · exact ⟨o, ho, rfl⟩
  · next victim _ =>
    refine ⟨_, getElem?_modify_of_some (b := victim.2) (f := fun a => { a with evict := true }) ho, ?_⟩
    split <;> rfl

theorem gatewayHandle_reserve {o : GatewayAttachment} (ho : s.objects[a]? = some o) :
    gatewayHandle cfg (.reserve session a) t .done s =
      some (s.reserve cfg session a o.id, (s.victim cfg session).map Prod.snd) := by
  simp only [gatewayHandle, ho]

theorem gatewayHandle_release {o : GatewayAttachment} (ho : s.objects[a]? = some o) :
    gatewayHandle cfg (.release session a) t .done s = some (s.release session a o.id, ()) := by
  simp only [gatewayHandle, ho]

/-- A reservation of the thread's own new object. -/
theorem reserve_kept {w : GatewayAnswer} {victim : Option ℕ} (h : Admitted cfg s) (hf : Fresh t a s)
    (hh : gatewayHandle cfg (.reserve session a) t w s = some (s', victim)) :
    Admitted cfg s' ∧ (∀ t', t' ≠ t → Own t' s s') ∧ Held t session a s' ∧ Reserves cfg s s' session a := by
  obtain ⟨o, ho, hm, hres, hrel⟩ := hf
  cases w <;> try cases hh
  rw [gatewayHandle_reserve ho] at hh
  cases hh
  obtain ⟨hl, hb, hspec⟩ := reserve_spec h.ledger h.bounded ho hres hrel
  obtain ⟨o', ho', hm'⟩ := reserve_object cfg session a o.id ho
  refine ⟨⟨hl, hb⟩, fun t' hne b ob hob hmb => ?_, ⟨o', ho', hm'.trans hm, reserve_reserved.mpr (.inl rfl)⟩, hspec⟩
  obtain ⟨ob', hob', hmb'⟩ := reserve_object cfg session a o.id hob
  refine ⟨⟨ob', hob', hmb'.trans hmb⟩, fun session' => ?_, by rw [reserve_releases]⟩
  rw [reserve_reserved]
  refine or_iff_right fun heq => hne ?_
  cases heq
  cases ho.symm.trans hob
  exact hmb.symm.trans hm

/-- A release of the thread's own reserved object. -/
theorem release_kept {w : GatewayAnswer} {u : Unit} (h : Admitted cfg s) (hheld : Held t session a s)
    (hh : gatewayHandle cfg (.release session a) t w s = some (s', u)) :
    Admitted cfg s' ∧ ∀ t', t' ≠ t → Own t' s s' := by
  obtain ⟨o, ho, hm, hres⟩ := hheld
  cases w <;> try cases hh
  rw [gatewayHandle_release ho] at hh
  cases hh
  refine ⟨⟨ledger_release h.ledger ho hres, bounded_release h.bounded⟩,
    fun t' hne b ob hob hmb => ⟨?_, fun _ => .rfl, ?_⟩⟩
  · refine ⟨_, getElem?_modify_of_some (b := a) (f := fun a => { a with released := true }) hob, ?_⟩
    split <;> exact hmb
  · show b ∈ a :: s.releases ↔ b ∈ s.releases
    rw [List.mem_cons]
    refine or_iff_right fun heq => hne ?_
    subst heq
    cases ho.symm.trans hob
    exact hmb.symm.trans hm

/-- A release takes its own attachment off, and no other. -/
theorem release_active {w : GatewayAnswer} {u : Unit} (h : Admitted cfg s) (hheld : Held t session a s)
    (hh : gatewayHandle cfg (.release session a) t w s = some (s', u)) (session' : String) (b : ℕ) :
    Active s' session' b ↔ Active s session' b ∧ b ≠ a := by
  obtain ⟨o, ho, -, hres⟩ := hheld
  cases w <;> try cases hh
  rw [gatewayHandle_release ho] at hh
  cases hh
  constructor
  · rintro ⟨id, hm⟩
    obtain ⟨hm, hne⟩ := (takeOff_active h.ledger ho hres (id, b)).mp hm
    exact ⟨⟨id, hm⟩, hne⟩
  · rintro ⟨⟨id, hm⟩, hne⟩
    exact ⟨id, (takeOff_active h.ledger ho hres (id, b)).mpr ⟨hm, hne⟩⟩

/-- The thread runs `p` from `s` without locks, and where it returns `K` holds. -/
abbrev Goes (cfg : GatewayConfig) (t : ℕ) (K : α → GatewayWorld → Prop) (p : GatewayM α) (s : GatewayWorld) :
    Prop :=
  Safe (gatewayInterp cfg) (contract cfg) t (fun r h s => h = [] ∧ ∀ a, r = .ok a → K a s) p [] s

variable {J : GatewayWorld → Prop} {K : α → GatewayWorld → Prop}

theorem goes_bind {K' : β → GatewayWorld → Prop} {p : GatewayM β} {f : β → GatewayM α} (hp : Goes cfg t K' p s)
    (hf : ∀ b s, K' b s → Goes cfg t K (f b) s) : Goes cfg t K (p.bind f) s := by
  refine Safe.bind contract_coherent (Safe.mono (fun r h s _ hq => ?_) hp)
  obtain ⟨rfl, hq⟩ := hq
  cases r with
  | ok b => exact hf b s (hq b rfl)
  | error x => exact fun s' _ _ => ⟨rfl, fun a ha => nomatch ha⟩

/-- A part that neither creates, nor reserves, nor releases an attachment. -/
theorem goes_quiet {p : GatewayM α} (hJ : Stable t J) (hs : J s)
    (hp : p.Performs (fun _ _ _ => True) Quiet fun _ => True) : Goes cfg t (fun _ => J) p s := by
  refine Safe.mono (fun r h s _ hq => ⟨hq.1, fun _ _ => hq.2.2⟩)
    (Safe.of_performs (J := J) (fun _ _ _ _ _ _ _ => trivial)
    (fun s s' hj hr _ => hJ s s' hj hr) (fun β e he s hi hj _ => ⟨promised_of_quiet he, fun w s' b hh => ?_⟩) hp hs)
  obtain ⟨hk, hown⟩ := quiet_kept he hi hh
  exact ⟨fun t' _ => hown t', hk, hJ s s' hj (hown t)⟩

/-- One effect under the lock of the gateway. -/
theorem goes_locked {e : GatewayCall β} {J' : β → GatewayWorld → Prop} (hJ : Stable t J) (hs : J s)
    (hJ' : ∀ b, Stable t (J' b)) (hpre : ∀ s, J s → promised t s e)
    (h : ∀ w s s' b, J s → Admitted cfg s → gatewayHandle cfg e t w s = some (s', b) →
      Admitted cfg s' ∧ (∀ t', t' ≠ t → Own t' s s') ∧ J' b s') :
    Goes cfg t J' (Prog.withLock .piGateway (Prog.call e)) s := by
  refine Safe.withLock contract_coherent (fun s₁ hr₁ _ _ _ => ?_) fun _ _ hr => hr
  intro s₂ hr₂ hi₂ _
  have hs₂ := hJ s₁ s₂ (hJ s s₁ hs hr₁) hr₂
  refine ⟨hpre s₂ hs₂, fun w s₃ b hh => ?_⟩
  obtain ⟨hk, hown, hj⟩ := h w s₂ s₃ b hs₂ hi₂ hh
  refine ⟨hown, hk, fun s₄ hr₄ _ => ⟨rfl, fun _ _ _ => trivial, fun s₅ hr₅ _ => ⟨rfl, fun b' hb' => ?_⟩⟩⟩
  cases hb'
  exact hJ' b s₄ s₅ (hJ' b s₃ s₄ hj hr₄) hr₅

theorem performs_await {e : GatewayCall (Except GatewayError α)} (he : Quiet _ e) :
    (Prog.await e : GatewayM α).Performs (fun _ _ _ => True) Quiet fun _ => True :=
  Prog.Performs.await he fun _ _ => trivial

theorem performs_replacedNotice : replacedNotice.Performs (fun _ _ _ => True) Quiet fun _ => True := by
  refine Prog.Performs.bind (performs_await trivial) fun _ _ => ?_
  refine Prog.Performs.bind (performs_await trivial) fun _ _ => ?_
  exact performs_await trivial

theorem performs_pumpTerminal : (pumpTerminal a).Performs (fun _ _ _ => True) Quiet fun _ => True := by
  refine ⟨trivial, fun evicted _ => ?_⟩
  cases evicted with
  | true => exact performs_replacedNotice.attempt.bind fun _ _ => trivial
  | false =>
    refine (performs_await (e := .pump a) trivial).attempt.bind fun outcome _ => ?_
    rcases outcome with x | replaced
    · trivial
    · cases replaced with
      | false => trivial
      | true => exact performs_replacedNotice.attempt.bind fun _ _ => trivial

theorem performs_ignoringRuntimeError {p : GatewayM Unit}
    (hp : p.Performs (fun _ _ _ => True) Quiet fun _ => True) :
    (ignoringRuntimeError p).Performs (fun _ _ _ => True) Quiet fun _ => True := by
  refine hp.catching fun e => ?_
  cases e <;> trivial

theorem performs_closeClient (reason : String) (r : Except GatewayError Unit) :
    (closeClient reason r).Performs (fun _ _ _ => True) Quiet fun _ => True := by
  unfold closeClient
  split
  · exact (performs_ignoringRuntimeError (performs_await (by trivial))).attempt.bind fun _ _ => trivial
  · refine (performs_ignoringRuntimeError ?_).attempt.bind fun _ _ => trivial
    exact Prog.Performs.bind (performs_await trivial) fun _ _ => performs_await trivial
  · trivial

theorem performs_refuseClient (code : ℕ) (reason : String) (message : Option ServerMessage) :
    (refuseClient code reason message).Performs (fun _ _ _ => True) Quiet fun _ => True := by
  cases message with
  | none => exact performs_await trivial
  | some message => exact Prog.Performs.bind (performs_await trivial) fun _ _ => performs_await trivial

/-- What is reserved is released at the end. -/
theorem goes_serveAttachment (hs : Held t session a s) :
    Goes cfg t (fun _ _ => True) (serveAttachment session a) s := by
  refine goes_bind (goes_quiet stable_held hs performs_pumpTerminal) fun pumped s hs => ?_
  refine goes_bind (goes_quiet stable_held hs (performs_closeClient _ _)) fun closed s hs => ?_
  have hcount : Goes cfg t (fun _ => Held t session a)
    (Prog.withLock .piGateway (Prog.call (.countClose closed.1))) s := by
    refine goes_locked stable_held hs (fun _ => stable_held) (fun _ _ => trivial) fun w s s' b hj hi hh => ?_
    have hquiet : Quiet Unit (.countClose closed.1) := trivial
    obtain ⟨hk, hown⟩ := quiet_kept hquiet hi hh
    exact ⟨hk, fun t' _ => hown t', stable_held s s' hj (hown t)⟩
  refine goes_bind hcount fun _ s hs => ?_
  have hrelease : Goes cfg t (fun _ _ => True) (releaseGatewayAttachment session a) s := by
    refine goes_locked stable_held hs (fun _ => stable_true) (fun _ h => h) fun w s s' b hj hi hh => ?_
    obtain ⟨hk, hown⟩ := release_kept hi hj hh
    exact ⟨hk, hown, trivial⟩
  refine goes_bind hrelease fun _ s _ => ?_
  exact goes_quiet stable_true trivial (Prog.Performs.ofExcept fun _ _ => trivial)

theorem goes_piSessionAttachGateway (rows cols : Option ℤ) :
    Goes cfg t (fun _ _ => True) (piSessionAttachGateway session rows cols) s := by
  refine goes_bind (goes_quiet stable_true trivial
    (Prog.Performs.attempt (performs_await (by trivial))).any) fun caller s _ => ?_
  cases caller with
  | error e =>
    refine goes_quiet stable_true trivial ?_
    cases e <;> first | exact performs_refuseClient _ _ _ | trivial
  | ok _ =>
    refine goes_bind (goes_quiet stable_true trivial
      (Prog.Performs.attempt (performs_await (by trivial))).any) fun info s _ => ?_
    cases info with
    | error e =>
      refine goes_quiet stable_true trivial ?_
      cases e <;> first | exact performs_refuseClient _ _ _ | trivial
    | ok info =>
      obtain ⟨attachable, reason⟩ := info
      cases attachable with
      | false => exact goes_quiet stable_true trivial (performs_refuseClient _ _ _)
      | true =>
        -- From here on the thread has an object of its own.
        intro s₁ _ hi₁ _
        refine ⟨trivial, fun w s₂ a hh => ?_⟩
        obtain ⟨hk, hown, hfresh⟩ := newAttachment_kept hi₁ hh
        refine ⟨hown, hk, ?_⟩
        have hreserve : Goes cfg t (fun _ => Held t session a) (reserveGatewayAttachment session a) s₂ := by
          refine goes_locked stable_fresh hfresh (fun _ => stable_held) (fun _ h => h) fun w s s' b hj hi hh => ?_
          obtain ⟨hk, hown, hheld, -⟩ := reserve_kept hi hj hh
          exact ⟨hk, hown, hheld⟩
        refine goes_bind (p := reserveGatewayAttachment session a) hreserve fun victim s hheld => ?_
        cases victim with
        | none => exact goes_serveAttachment hheld
        | some victim =>
          exact goes_bind (goes_quiet stable_held hheld (performs_await trivial)) fun _ s hheld =>
            goes_serveAttachment hheld

theorem goes_activity {p : GatewayM Unit} (hp : Activity p) : Goes cfg t (fun _ _ => True) p s := by
  cases hp with
  | attach sessionId rows cols => exact goes_piSessionAttachGateway rows cols
  | frame attachment data => exact goes_quiet stable_true trivial (Prog.Performs.call trivial fun _ _ => trivial)

theorem admitted_start : Admitted cfg {} where
  ledger :=
    { ids := List.nodup_nil
      keys := fun _ => List.nodup_nil
      keyed := fun _ _ he => nomatch he
      active_iff := fun _ _ => Iff.intro (fun ⟨_, hm⟩ => (nomatch hm)) fun h => (nomatch h.1)
      once := fun _ _ _ h => nomatch h
      created := fun _ _ h => nomatch h
      released_created := fun _ h => nomatch h
      victims_reserved := fun _ h => nomatch h
      victims_nodup := List.nodup_nil
      counted := rfl
      evict_iff := fun a o ho => by simp at ho }
  bounded := ⟨fun _ => Nat.zero_le _, fun _ h => nomatch h⟩

theorem sound_of_reachable {c : GatewayPool} (hc : Pool.Reachable (gatewayInterp cfg) Attaches {} c) :
    Pool.Sound (gatewayInterp cfg) (contract cfg) (fun _ _ h _ => h = []) c := by
  refine Pool.Reachable.sound contract_coherent admitted_start (fun _ => trivial) (fun _ => trivial)
    (fun _ _ hp _ _ _ _ => Safe.mono (fun _ _ _ _ hq => hq.1) (goes_activity hp)) (fun _ _ _ _ _ _ _ _ _ => trivial)
    (fun _ _ _ _ _ _ => rfl) (fun _ _ h => h.elim) (fun _ _ _ => trivial) hc

/-- What an admitted state is: the ledger and the bounds, without the maps behind them. -/
structure Admission (cfg : GatewayConfig) (s : GatewayWorld) : Prop where
  capacity : ∀ session, (s.active session).length ≤ cfg.maxPerSession
  active_iff : ∀ session a, Active s session a ↔ (session, a) ∈ s.reserved ∧ a ∉ s.victims ∧ a ∉ s.releases
  counted : s.victims.Nodup ∧ s.evictionsTotal = s.victims.length
  evict_iff : ∀ a o, s.objects[a]? = some o → (o.evict = true ↔ a ∈ s.victims)
  nonempty : ∀ session, s.attachments session ≠ some []

/-- In every run the gateway is in order, a reservation takes the place of the least active
attachment when there is no room, and a release takes off nothing but its own attachment. -/
theorem admission {c : GatewayPool} (hc : Pool.Reachable (gatewayInterp cfg) Attaches {} c) :
    Admission cfg c.state ∧
      (∀ t w c' session a k h, c.threads[t]? = some ⟨.perform (.reserve session a) k, h⟩ →
        c.step (gatewayInterp cfg) (.go t w) = some c' → Reserves cfg c.state c'.state session a) ∧
      ∀ t w c' session a k h, c.threads[t]? = some ⟨.perform (.release session a) k, h⟩ →
        c.step (gatewayInterp cfg) (.go t w) = some c' →
          ∀ session' b, Active c'.state session' b ↔ Active c.state session' b ∧ b ≠ a := by
  have hsound := sound_of_reachable hc
  have hi : Admitted cfg c.state := hsound.inv
  refine ⟨⟨hi.bounded.capacity, hi.ledger.active_iff, ⟨hi.ledger.victims_nodup, hi.ledger.counted⟩,
    hi.ledger.evict_iff,
    hi.bounded.nonempty⟩, fun t w c' session a k h ht hstep => ?_, fun t w c' session a k h ht hstep => ?_⟩
  · have hfresh : Fresh t a c.state := hsound.pre contract_coherent ht trivial
    simp only [Pool.step, ht, Pool.advance] at hstep
    split at hstep
    · cases hstep
    · next s' victim hh =>
      cases hstep
      exact (reserve_kept hi hfresh hh).2.2.2
  · have hheld : Held t session a c.state := hsound.pre contract_coherent ht trivial
    simp only [Pool.step, ht, Pool.advance] at hstep
    split at hstep
    · cases hstep
    · next s' u hh =>
      cases hstep
      exact release_active hi hheld hh

def oneAttachment : GatewayConfig := ⟨1, Nat.one_pos⟩

/-- A client is let in until it has its place. -/
def letIn (t : ℕ) (id : String) (now : ℚ) : List GatewayEvent :=
  .spawn (piSessionAttachGateway "pi-1" none none) ::
    [.done, .info true none, .created id now, .done, .done, .done].map (.go t)

/-- The second client takes the place of the first, which then leaves. -/
def replacedRun : List GatewayEvent := letIn 0 "a" 0 ++ letIn 1 "b" 5 ++
    (List.replicate 10 GatewayAnswer.done).map (.go 0)

theorem admission_replacedRun : ∃ c : GatewayPool, c.state.evictionsTotal = 1 ∧ c.state.releases = [0] ∧
    c.state.attachments "pi-1" = some [("b", 1)] ∧ Admission oneAttachment c.state := by
  have hrun : (Pool.run (gatewayInterp oneAttachment) ⟨{}, []⟩ replacedRun).map
      (fun c => (c.state.evictionsTotal, c.state.releases, c.state.attachments "pi-1")) =
      some (1, [0], some [("b", 1)]) := by decide +kernel
  obtain ⟨c, hc, hobs⟩ := Option.map_eq_some_iff.mp hrun
  simp only [Prod.mk.injEq] at hobs
  have hreach : Pool.Reachable (gatewayInterp oneAttachment) Attaches {} c := by
    refine Pool.Reachable.run .init (fun d ev hev => ?_) hc
    simp only [replacedRun, letIn, List.mem_append, List.mem_cons, List.mem_map] at hev
    rcases hev with ((rfl | ⟨w, -, rfl⟩) | (rfl | ⟨w, -, rfl⟩)) | ⟨w, -, rfl⟩
    · exact .attach _ _ _
    · trivial
    · exact .attach _ _ _
    · trivial
    · trivial
  exact ⟨c, hobs.1, hobs.2.1, hobs.2.2, (admission hreach).1⟩

end WorkerHarness.GatewayAdmission
