import WorkerHarness.ManagerRows

/-!
# Confined writes

What the requests of one session may write, as a relation between the tables that the first of them
found and any later ones: each session, each event and each command is followed from its row in the
first tables, and the rows that are new say whose they are. One lemma covers every statement of
every permitted operation.
-/

namespace WorkerHarness.WriteConfinement

open SharedTransactions Database SessionStatements ManagerRows

/-- What identifies a session in the fleet. -/
structure Keeps (r r' : PiSession) : Prop where
  id : r'.id = r.id
  role : r'.role = r.role
  parent : r'.parentSessionId = r.parentSessionId
  project : r'.project = r.project

/-- How far the requests of the session `me` reach: `serves` are the sessions whose rows, events and
commands they may change, `prompts` those to which they may send prompts, `waits` those whose
launch they may give up, and `launched` the rows that they may insert. -/
structure Scope where
  me : String
  serves : String → Prop
  prompts : String → Prop
  waits : String → Prop
  launched : PiSession → Prop

def Fresh (d : Tables) (id : String) : Prop := id ∉ d.sessions.map (·.id)

/-- The caller is a session and serves itself only through its bridge. -/
structure Scope.Sound (S : Scope) (d : Tables) : Prop where
  known : ¬Fresh d S.me
  serves : ¬S.serves S.me
  waits : ¬S.waits S.me
  launched : ∀ r r', Keeps r r' → S.launched r → S.launched r'
  fresh : ∀ r, S.launched r → Fresh d r.id → S.serves r.id

/-- A bridge may speak for the session: for the caller, or for a session launched since. -/
def Scope.Speaks (S : Scope) (d : Tables) (id : String) : Prop := id = S.me ∨ Fresh d id ∧ S.serves id

/-- What may become of the row of a session. -/
inductive Changes (S : Scope) (r : PiSession) : PiSession → Prop where
  | same : Changes S r r
  | own {r' : PiSession} : r.id = S.me → Keeps r r' → r'.tokenHash = r.tokenHash → Changes S r r'
  | served {r' : PiSession} : S.serves r.id → Keeps r r' →
      r'.tokenHash = r.tokenHash ∨ r'.state.terminal = true → Changes S r r'
  | prompted (updatedAt : ℕ) (pending : Bool) : S.prompts r.id →
      Changes S r { r with updatedAt := updatedAt, hasPendingMessages := pending }
  | givenUp (detail : String) (updatedAt : ℕ) (pending : Bool) : S.waits r.id →
      Changes S r { r.finished .failed detail updatedAt with hasPendingMessages := pending }

def Logs (S : Scope) (e : PiSessionEvent) : Prop :=
  e.sessionId = S.me ∨ S.serves e.sessionId ∨ S.prompts e.sessionId ∧ e.eventType = "prompt-queued" ∨
    S.waits e.sessionId ∧ (e.eventType = "launch-failed" ∨ e.eventType = "herdr-error")

def Mails (S : Scope) (c : PiSessionCommand) : Prop :=
  c.sessionId = S.me ∨ S.serves c.sessionId ∨ S.prompts c.sessionId ∧ c.kind = "prompt"

def Handles (S : Scope) (d : Tables) (c c' : PiSessionCommand) : Prop :=
  c' = c ∨ S.Speaks d c.sessionId ∧ c'.sessionId = c.sessionId

/-- Nothing is written beyond the scope: `d` are the first tables, `e` the later ones. -/
structure Confined (S : Scope) (d e : Tables) : Prop where
  sessions : ∃ f new, e.sessions = d.sessions.map f ++ new ∧ (∀ r ∈ d.sessions, Changes S r (f r)) ∧
    ∀ r ∈ new, S.launched r ∧ Fresh d r.id
  events : ∃ new, e.events = d.events ++ new ∧ ∀ event ∈ new, Logs S event
  commands : ∃ g new, e.commands = d.commands.map g ++ new ∧ (∀ c ∈ d.commands, Handles S d c (g c)) ∧
    ∀ c ∈ new, Mails S c

theorem Confined.refl (S : Scope) (d : Tables) : Confined S d d where
  sessions := ⟨id, [], by simp, fun _ _ => .same, fun _ hr => (nomatch hr)⟩
  events := ⟨[], by simp, fun _ he => (nomatch he)⟩
  commands := ⟨id, [], by simp, fun _ _ => .inl rfl, fun _ hc => (nomatch hc)⟩

variable {S : Scope} {d e e' : Tables} {r r₁ r₂ : PiSession}

theorem Keeps.refl (r : PiSession) : Keeps r r := ⟨rfl, rfl, rfl, rfl⟩

theorem Keeps.trans (h : Keeps r r₁) (h' : Keeps r₁ r₂) : Keeps r r₂ :=
  ⟨h'.id.trans h.id, h'.role.trans h.role, h'.parent.trans h.parent, h'.project.trans h.project⟩

theorem Changes.keeps (h : Changes S r r₁) : Keeps r r₁ := by
  cases h with
  | same => exact .refl r
  | own _ hk => exact hk
  | served _ hk => exact hk
  | prompted => exact ⟨rfl, rfl, rfl, rfl⟩
  | givenUp => exact ⟨rfl, rfl, rfl, rfl⟩

/-- Who loses its token has ended. -/
theorem Changes.token (h : Changes S r r₁) : r₁.tokenHash = r.tokenHash ∨ r₁.state.terminal = true := by
  cases h with
  | same => exact .inl rfl
  | own _ _ ht => exact .inl ht
  | served _ _ ht => exact ht
  | prompted => exact .inl rfl
  | givenUp => exact .inr rfl

/-- The caller keeps its token. -/
theorem Changes.own_token (hS : S.Sound d) (h : Changes S r r₁) (hid : r.id = S.me) :
    r₁.tokenHash = r.tokenHash := by
  cases h with
  | same => rfl
  | own _ _ ht => exact ht
  | served hs => exact absurd (hid ▸ hs) hS.serves
  | prompted => rfl
  | givenUp _ _ _ hw => exact absurd (hid ▸ hw) hS.waits

theorem Changes.speaks (hS : S.Sound d) (h : Changes S r r₁) (hid : r.id = S.me) (hk : Keeps r₁ r₂)
    (ht : r₂.tokenHash = r₁.tokenHash) : Changes S r r₂ :=
  .own hid (h.keeps.trans hk) (ht.trans (h.own_token hS hid))

theorem Changes.serves (h : Changes S r r₁) (hs : S.serves r.id) (hk : Keeps r₁ r₂)
    (ht : r₂.tokenHash = r₁.tokenHash ∧ r₂.state = r₁.state ∨ r₂.state.terminal = true) : Changes S r r₂ := by
  refine .served hs (h.keeps.trans hk) ?_
  rcases ht with ⟨ht, hstate⟩ | ht
  · rw [ht, hstate]
    exact h.token
  · exact .inr ht

theorem keeps_notified (updatedAt : ℕ) (r : PiSession) : Keeps r (r.notified updatedAt) := ⟨rfl, rfl, rfl, rfl⟩

theorem keeps_finished (state : PiSessionState) (detail : String) (now : ℕ) (r : PiSession) :
    Keeps r (r.finished state detail now) := ⟨rfl, rfl, rfl, rfl⟩

/-- A command arrives. -/
theorem Changes.notified (hS : S.Sound d) (h : Changes S r r₁) (hid : r.id = S.me ∨ S.serves r.id ∨ S.prompts r.id)
    (updatedAt : ℕ) : Changes S r (r₁.notified updatedAt) := by
  rcases hid with hid | hs | hp
  · exact h.speaks hS hid (keeps_notified updatedAt r₁) rfl
  · exact h.serves hs (keeps_notified updatedAt r₁) (.inl ⟨rfl, rfl⟩)
  · cases h with
    | same => exact .prompted updatedAt true hp
    | own hid hk ht => exact .own hid (hk.trans (keeps_notified updatedAt r₁)) ht
    | served hs hk ht => exact .served hs (hk.trans (keeps_notified updatedAt r₁)) ht
    | prompted => exact .prompted updatedAt true hp
    | givenUp detail _ _ hw => exact .givenUp detail updatedAt true hw

/-- The launch is given up. -/
theorem Changes.fails (hS : S.Sound d) (h : Changes S r r₁) (hw : S.waits r.id) (detail : String) (now : ℕ) :
    Changes S r (r₁.finished .failed detail now) := by
  cases h with
  | same => exact .givenUp detail now r.hasPendingMessages hw
  | own hid => exact absurd (hid ▸ hw) hS.waits
  | served hs hk => exact .served hs (hk.trans (keeps_finished .failed detail now r₁)) (.inr rfl)
  | prompted _ pending => exact .givenUp detail now pending hw
  | givenUp _ _ pending => exact .givenUp detail now pending hw

theorem Confined.mem (h : Confined S d e) {r₁ : PiSession} (hr : r₁ ∈ e.sessions) :
    (∃ r ∈ d.sessions, Changes S r r₁) ∨ S.launched r₁ ∧ Fresh d r₁.id := by
  obtain ⟨f, new, hf, hold, hnew⟩ := h.sessions
  rw [hf] at hr
  rcases List.mem_append.mp hr with hr | hr
  · obtain ⟨a, ha, rfl⟩ := List.mem_map.mp hr
    exact .inl ⟨a, ha, hold a ha⟩
  · exact .inr (hnew r₁ hr)

theorem Confined.fresh (h : Confined S d e) {id : String} (hid : Fresh e id) : Fresh d id := by
  intro hmem
  obtain ⟨f, new, hf, hold, -⟩ := h.sessions
  obtain ⟨r, hr, rfl⟩ := List.mem_map.mp hmem
  refine hid (List.mem_map.mpr ⟨f r, ?_, (hold r hr).keeps.id⟩)
  rw [hf]
  exact List.mem_append_left _ (List.mem_map_of_mem hr)

/-- Rows of sessions are updated. -/
theorem Confined.update_sessions (hS : S.Sound d) (h : Confined S d e) {p : Tables → PiSession → Bool}
    {f : PiSession → PiSession} (hkeeps : ∀ r, Keeps r (f r))
    (hf : ∀ r ∈ d.sessions, ∀ r₁, Changes S r r₁ → p e r₁ = true → Changes S r (f r₁)) :
    Confined S d ((update sessionsTable p f).apply e) := by
  obtain ⟨f', new, hold, hchanges, hnew⟩ := h.sessions
  refine ⟨⟨fun r => if p e (f' r) then f (f' r) else f' r, new.map fun r => if p e r then f r else r, ?_, ?_, ?_⟩,
    h.events,
    h.commands⟩
  · change updateRows (p e) f e.sessions = _
    rw [hold, updateRows, List.map_append, List.map_map]
    rfl
  · intro r hr
    dsimp only
    split
    · next hp => exact hf r hr _ (hchanges r hr) hp
    · exact hchanges r hr
  · intro r hr
    obtain ⟨r₁, hr₁, rfl⟩ := List.mem_map.mp hr
    obtain ⟨hlaunched, hfresh⟩ := hnew r₁ hr₁
    split
    · exact ⟨hS.launched _ _ (hkeeps r₁) hlaunched, (hkeeps r₁).id ▸ hfresh⟩
    · exact ⟨hlaunched, hfresh⟩

/-- Commands are updated by the bridge of their session. -/
theorem Confined.update_commands (h : Confined S d e) {p : Tables → PiSessionCommand → Bool}
    {f : PiSessionCommand → PiSessionCommand} (hkeeps : ∀ c, (f c).sessionId = c.sessionId ∧ (f c).kind = c.kind)
    (hp : ∀ c, p e c = true → S.Speaks d c.sessionId) : Confined S d ((update commandsTable p f).apply e) := by
  obtain ⟨g, new, hold, hhandles, hnew⟩ := h.commands
  refine ⟨h.sessions, h.events,
    ⟨fun c => if p e (g c) then f (g c) else g c, new.map fun c => if p e c then f c else c, ?_, ?_, ?_⟩⟩
  · change updateRows (p e) f e.commands = _
    rw [hold, updateRows, List.map_append, List.map_map]
    rfl
  · intro c hc
    dsimp only
    split
    · next hpc =>
      have hspeaks := hp _ hpc
      have hsame : (g c).sessionId = c.sessionId := (hhandles c hc).elim (fun heq => by rw [heq]) fun hh => hh.2
      exact .inr ⟨hsame ▸ hspeaks, (hkeeps (g c)).1.trans hsame⟩
    · exact hhandles c hc
  · intro c hc
    obtain ⟨c₁, hc₁, rfl⟩ := List.mem_map.mp hc
    have hmails := hnew c₁ hc₁
    split
    · rw [Mails, (hkeeps c₁).1, (hkeeps c₁).2]
      exact hmails
    · exact hmails

theorem Confined.insert_event (h : Confined S d e) {event : PiSessionEvent} (hlogs : Logs S event) :
    Confined S d ((insertEvent event).apply e) := by
  obtain ⟨new, hold, hnew⟩ := h.events
  change Confined S d (if _ then e else { e with
    events := e.events ++ [{ event with sequence := nextSequence e event.sessionId }] })
  split
  · exact h
  · refine ⟨h.sessions, ⟨new ++ [{ event with sequence := nextSequence e event.sessionId }], ?_, ?_⟩, h.commands⟩
    · simp [hold]
    · intro event' hmem
      rcases List.mem_append.mp hmem with hmem | hmem
      · exact hnew event' hmem
      · rw [List.mem_singleton.mp hmem]
        exact hlogs

theorem Confined.insert_command (h : Confined S d e) {c : PiSessionCommand} (hmails : Mails S c) :
    Confined S d ((insertInto commandsTable (·.id) c).apply e) := by
  obtain ⟨g, new, hold, hhandles, hnew⟩ := h.commands
  change Confined S d (if _ then e else { e with commands := e.commands ++ [c] })
  split
  · exact h
  · refine ⟨h.sessions, h.events, ⟨g, new ++ [c], ?_, hhandles, ?_⟩⟩
    · simp [hold]
    · intro c' hmem
      rcases List.mem_append.mp hmem with hmem | hmem
      · exact hnew c' hmem
      · rw [List.mem_singleton.mp hmem]
        exact hmails

theorem Confined.insert_session (h : Confined S d e) {row : PiSession} (hlaunched : S.launched row)
    (hfresh : Fresh d row.id) : Confined S d ((insertInto sessionsTable (·.id) row).apply e) := by
  obtain ⟨f, new, hold, hchanges, hnew⟩ := h.sessions
  change Confined S d (if _ then e else { e with sessions := e.sessions ++ [row] })
  split
  · exact h
  · refine ⟨⟨f, new ++ [row], ?_, hchanges, ?_⟩, h.events, h.commands⟩
    · simp [hold]
    · intro r hmem
      rcases List.mem_append.mp hmem with hmem | hmem
      · exact hnew r hmem
      · rw [List.mem_singleton.mp hmem]
        exact ⟨hlaunched, hfresh⟩

/-- The operation stays within the scope, whenever it is called. -/
def Permitted (S : Scope) (d : Tables) : SessionOp → Prop
  | .insert row => S.launched row ∧ Fresh d row.id
  | .register payload _ _ => S.Speaks d payload.sessionId
  | .events sessionId _ _ _ => S.Speaks d sessionId
  | .block sessionId _ _ _ => S.Speaks d sessionId
  | .claim sessionId _ _ _ => S.Speaks d sessionId
  | .ack sessionId _ _ _ => S.Speaks d sessionId
  | .enqueue command _ => Mails S command
  | .finish sessionId state _ _ => S.serves sessionId ∧ state.terminal = true ∨ S.waits sessionId ∧ state = .failed
  | .patch sessionId members => S.serves sessionId ∧ ∀ m ∈ members, m.1 = "pr_url"
  | .nextPane sessionId => S.serves sessionId
  | .insertEvent event => Logs S event
  | .sweep _ _ _ => False
  | .reparent _ _ => False

def Registrable (op : SessionOp) (e : Tables) : Prop :=
  ∀ payload now uuid, op = .register payload now uuid → ¬Fresh e payload.sessionId

theorem ids_updateRows {p : PiSession → Bool} {f : PiSession → PiSession} (hf : ∀ r, (f r).id = r.id)
    (rs : List PiSession) : (updateRows p f rs).map (·.id) = rs.map (·.id) := by
  rw [updateRows, List.map_map]
  refine List.map_congr_left fun r _ => ?_
  by_cases hp : p r = true <;> simp [hp, hf]

/-- A registration removes no session. -/
theorem Registrable.executes {op : SessionOp} {st : SharedTransactions.Statement Tables} (h : Registrable op e)
    (hst : Executes op st) : Registrable op (st.apply e) := by
  rintro payload now uuid rfl
  have hid := h payload now uuid rfl
  rw [Fresh, not_not] at hid ⊢
  cases hst with
  | upserted _ _ _ createdAt =>
    change payload.sessionId ∈ (upsertedSessions payload now createdAt e.sessions).map (·.id)
    unfold upsertedSessions
    split
    · rwa [ids_updateRows (f := reregisteredSession payload now) fun _ => rfl]
    · exact List.map_append ▸ List.mem_append_left _ hid
  | resumed =>
    change payload.sessionId ∈ (updateRows _ (PiSession.resumingAt payload.resumePath) e.sessions).map (·.id)
    rwa [ids_updateRows (f := PiSession.resumingAt payload.resumePath) fun _ => rfl]
  | released => exact hid
  | snapshot _ _ _ =>
    obtain ⟨events, hevents⟩ := insertEvent_apply (PiIngestEvent.row _ payload.sessionId (uuid _) now) e
    rw [hevents]
    exact hid

theorem keeps_reregistered (payload : PiBridgeRegister) (now : ℕ) (r : PiSession) :
    Keeps r (reregisteredSession payload now r) := ⟨rfl, rfl, rfl, rfl⟩

/-- The row is the caller's when its session was there at first. -/
theorem me_of_speaks {id : String} (h : S.Speaks d id) (hr : r ∈ d.sessions) (hid : r.id = id) : r.id = S.me := by
  rcases h with h | ⟨hfresh, -⟩
  · exact hid.trans h
  · exact absurd (hid ▸ List.mem_map_of_mem hr) hfresh

theorem logs_of_speaks {event : PiSessionEvent} (h : S.Speaks d event.sessionId) : Logs S event :=
  h.elim .inl fun hs => .inr (.inl hs.2)

/-- The registration of a session that exists. -/
theorem Confined.upsert (hS : S.Sound d) (h : Confined S d e) {payload : PiBridgeRegister} (now createdAt : ℕ)
    (hspeaks : S.Speaks d payload.sessionId) (hexists : ¬Fresh e payload.sessionId) :
    Confined S d ((upsertSession payload now createdAt).apply e) := by
  have hany : e.sessions.any (fun s => s.id = payload.sessionId) = true := by
    obtain ⟨r, hr, hid⟩ := List.mem_map.mp (not_not.mp hexists)
    exact List.any_eq_true.mpr ⟨r, hr, by simpa using hid⟩
  have happly : (upsertSession payload now createdAt).apply e =
      (update sessionsTable (fun _ s => s.id = payload.sessionId) (reregisteredSession payload now)).apply e := by
    change { e with sessions := upsertedSessions payload now createdAt e.sessions } = _
    rw [upsertedSessions, if_pos hany]
    rfl
  rw [happly]
  refine h.update_sessions hS (keeps_reregistered payload now) fun r hr r₁ hc hid => ?_
  have hme : r.id = S.me := me_of_speaks hspeaks hr (hc.keeps.id.symm.trans (of_decide_eq_true hid))
  exact hc.speaks hS hme (keeps_reregistered payload now r₁) rfl

/-- Every statement of a permitted operation keeps the tables confined. -/
theorem Confined.executes (hS : S.Sound d) {op : SessionOp} (hop : Permitted S d op)
    (hexists : Registrable op e)
    {st : SharedTransactions.Statement Tables} (hst : Executes op st) (h : Confined S d e) :
    Confined S d (st.apply e) := by
  -- A bridge writes the row of its own session.
  have hown : ∀ {id : String} {p : Tables → PiSession → Bool} {f : PiSession → PiSession}, S.Speaks d id →
      (∀ r, p e r = true → r.id = id) → (∀ r, Keeps r (f r)) → (∀ r, (f r).tokenHash = r.tokenHash) →
        Confined S d ((update sessionsTable p f).apply e) := by
    intro id p f hspeaks hp hkeeps htoken
    refine h.update_sessions hS hkeeps fun r hr r₁ hc hpr => ?_
    exact hc.speaks hS (me_of_speaks hspeaks hr (hc.keeps.id.symm.trans (hp r₁ hpr))) (hkeeps r₁) (htoken r₁)
  have hserved : ∀ {id : String} {f : PiSession → PiSession}, S.serves id → (∀ r, Keeps r (f r)) →
      (∀ r, (f r).tokenHash = r.tokenHash ∧ (f r).state = r.state ∨ (f r).state.terminal = true) →
        Confined S d ((update sessionsTable (fun _ s => s.id = id) f).apply e) := by
    intro id f hserves hkeeps htoken
    refine h.update_sessions hS hkeeps fun r hr r₁ hc hpr => ?_
    have hid : r.id = id := hc.keeps.id.symm.trans (of_decide_eq_true hpr)
    exact hc.serves (hid ▸ hserves) (hkeeps r₁) (htoken r₁)
  cases hst with
  | inserted session => exact h.insert_session hop.1 hop.2
  | upserted payload now uuid createdAt => exact h.upsert hS now createdAt hop (hexists payload now uuid rfl)
  | resumed payload now uuid =>
    exact hown hop (fun r hr => of_decide_eq_true hr)
      (fun r => ⟨rfl, rfl, rfl, get_set_of_ne (by decide)⟩) fun _ => rfl
  | released payload now uuid =>
    refine h.update_commands (fun c => ⟨rfl, rfl⟩) fun c hc => ?_
    simp only [PiSessionCommand.heldByOther, Bool.and_eq_true, PiSessionCommand.undelivered_iff] at hc
    exact hc.1.1.symm ▸ hop
  | snapshot now uuid _ => exact h.insert_event (logs_of_speaks hop)
  | batched sessionId now uuid _ => exact h.insert_event (logs_of_speaks hop)
  | reported sessionId payload now uuid session =>
    exact hown hop (fun r hr => of_decide_eq_true hr) (fun r => ⟨rfl, rfl, rfl, rfl⟩) fun _ => rfl
  | blocked sessionId question uuid now =>
    refine hown hop (fun r hr => ?_) (fun r => ⟨rfl, rfl, rfl, rfl⟩) fun _ => rfl
    rw [Bool.and_eq_true] at hr
    exact of_decide_eq_true hr.1
  | asked sessionId question uuid now => exact h.insert_event (logs_of_speaks hop)
  | enqueued command now => exact h.insert_command hop
  | notified command now =>
    refine h.update_sessions hS (fun r => keeps_notified _ r) fun r hr r₁ hc hpr => ?_
    have hid : r.id = command.sessionId := hc.keeps.id.symm.trans (of_decide_eq_true hpr)
    refine hc.notified hS ?_ _
    rw [hid]
    exact hop.imp_right fun hm => hm.imp_right And.left
  | leased sessionId incarnation now leaseSeconds =>
    refine h.update_commands (fun c => ⟨rfl, rfl⟩) fun c hc => ?_
    simp only [PiSessionCommand.leasable, Bool.and_eq_true, PiSessionCommand.undelivered_iff] at hc
    exact hc.1.1.symm ▸ hop
  | delivered sessionId commandId incarnation now =>
    refine h.update_commands (fun c => ⟨rfl, rfl⟩) fun c hc => ?_
    simp only [PiSessionCommand.ackable, Bool.and_eq_true, PiSessionCommand.undelivered_iff] at hc
    exact hc.1.2.1.symm ▸ hop
  | answered sessionId commandId incarnation now =>
    exact hown hop (fun r hr => of_decide_eq_true hr) (fun r => ⟨rfl, rfl, rfl, rfl⟩) fun _ => rfl
  | finished sessionId state detail now =>
    rcases hop with ⟨hserves, hstate⟩ | ⟨hwaits, rfl⟩
    · exact hserved hserves (keeps_finished state detail now) fun _ => .inr hstate
    · refine h.update_sessions hS (keeps_finished .failed detail now) fun r hr r₁ hc hpr => ?_
      have hid : r.id = sessionId := hc.keeps.id.symm.trans (of_decide_eq_true hpr)
      exact hc.fails hS (hid ▸ hwaits) detail now
  | patched sessionId members =>
    exact hserved hop.1 (fun r => ⟨rfl, rfl, rfl, project_patched hop.2 r⟩) fun _ => .inl ⟨rfl, rfl⟩
  | nextPane sessionId =>
    exact hserved hop (fun r => ⟨rfl, rfl, rfl, project_nextPane r⟩) fun _ => .inl ⟨rfl, rfl⟩
  | event event => exact h.insert_event hop
  | _ => exact hop.elim

end WorkerHarness.WriteConfinement
