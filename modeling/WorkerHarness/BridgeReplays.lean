import WorkerHarness.SessionRows

/-!
# Bridges that send again

A bridge that got no answer registers again, or posts its batch again. A registration recognises the messages of its
snapshot by their identity, a batch recognises its events by their ids. What the second call writes to the row of
the session is what the first one has written, up to time stamps.
-/

namespace WorkerHarness.BridgeReplays

open Coroutines SharedTransactions Database SessionRows

variable {sessionId uuid messageId : String} {event : PiIngestEvent} {events more : List PiSessionEvent}
    {now now' : ℕ}
  {d w : Tables} {s t : PiSession}

structure IsMessage (event : PiIngestEvent) (messageId : String) : Prop where
  eventType : event.eventType = "message-start" ∨ event.eventType = "message-end"
  payload : event.payload.getStr "message_id" = some messageId
  messageId_ne : messageId ≠ ""

/-- The query that recognises a message. -/
def hasMessage (sessionId eventType messageId : String) (events : List PiSessionEvent) : Bool :=
  events.any fun e => decide (e.sessionId = sessionId) && decide (e.eventType = eventType) &&
    decide (e.payload.extractText "message_id" = some messageId)

def Settled (sessionId : String) (event : PiIngestEvent) (events : List PiSessionEvent) : Prop :=
  ∀ messageId, IsMessage event messageId → hasMessage sessionId event.eventType messageId events = true ∨
    ∃ id, event.id = some id ∧ id ≠ "" ∧ ∃ e ∈ events, e.id = id

theorem hasMessage_append (h : hasMessage sessionId event.eventType messageId events = true)
    (more : List PiSessionEvent) :
    hasMessage sessionId event.eventType messageId (events ++ more) = true := by
  rw [hasMessage, List.any_append, Bool.or_eq_true]
  exact .inl h

theorem Settled.append (h : Settled sessionId event events) (more : List PiSessionEvent) :
    Settled sessionId event (events ++ more) := by
  intro messageId hmessage
  rcases h messageId hmessage with hfound | ⟨id, hid, hne, e, he, heq⟩
  · exact .inl (hasMessage_append hfound more)
  · exact .inr ⟨id, hid, hne, e, List.mem_append_left more he, heq⟩

/-- A stored message is recognised. -/
theorem hasMessage_of_mem {e : PiSessionEvent} (he : e ∈ events) (hsession : e.sessionId = sessionId)
    (hid : e.payload.getStr "message_id" = some messageId) :
    hasMessage sessionId e.eventType messageId events = true := by
  have htext : e.payload.extractText "message_id" = some messageId := by
    unfold JsonObject.getStr at hid
    unfold JsonObject.extractText
    split at hid
    · next heq => rw [heq]; exact hid
    · cases hid
  exact List.any_eq_true.mpr ⟨e, he, by simp [hsession, htext]⟩

def withEvent (w : Tables) (e : PiSessionEvent) : Tables :=
  withSessions w w.sessions w.commands (w.events ++ [{ e with sequence := nextSequence w e.sessionId }])

/-- The event of a snapshot is stored when it is a message that the session does not have, under an id that is
free. -/
theorem alone_insertInitialEvent (sessionId : String) (now : ℕ) (event : PiIngestEvent) (uuid : String)
    (d w : Tables) :
    alone (insertInitialEvent sessionId now event uuid) d w = (.ok (), d, w) ∧
        (∀ messageId, IsMessage event messageId → hasMessage sessionId event.eventType messageId w.events = true ∨
          ∃ e ∈ w.events, e.id = PiIngestEvent.idOr event uuid) ∨
      alone (insertInitialEvent sessionId now event uuid) d w =
          (.ok (), d, withEvent w (PiIngestEvent.row event sessionId uuid now)) ∧
        (¬∃ e ∈ w.events, e.id = PiIngestEvent.idOr event uuid) ∧
        ∃ messageId, IsMessage event messageId ∧ hasMessage sessionId event.eventType messageId w.events =
        false := by
  unfold insertInitialEvent
  by_cases htype : event.eventType ≠ "message-start" ∧ event.eventType ≠ "message-end"
  · rw [if_pos htype]
    refine .inl ⟨rfl, fun messageId hmessage => ?_⟩
    rcases hmessage.eventType with h | h
    · exact absurd h htype.1
    · exact absurd h htype.2
  · rw [if_neg htype]
    rw [← not_or, not_not] at htype
    cases hid : event.payload.getStr "message_id" with
    | none => exact .inl ⟨rfl, fun messageId hmessage => by cases hid.symm.trans hmessage.payload⟩
    | some messageId =>
      have hsame : ∀ messageId', IsMessage event messageId' → messageId' = messageId := fun messageId' hmessage =>
        Option.some.inj (hmessage.payload.symm.trans hid)
      dsimp only
      by_cases hne : messageId = ""
      · rw [if_pos hne]
        exact .inl ⟨rfl, fun messageId' hmessage => absurd (hsame _ hmessage ▸ hne) hmessage.messageId_ne⟩
      · rw [if_neg hne]
        cases hfound : hasMessage sessionId event.eventType messageId w.events with
        | true =>
          refine .inl ⟨?_, fun messageId' hmessage => .inl (hsame _ hmessage ▸ hfound)⟩
          rw [hasMessage] at hfound
          simp only [Prog.bind_eq, alone_bind, alone_query, hfound]
          rfl
        | false =>
          have hquery := hfound
          rw [hasMessage] at hquery
          by_cases hfree : ∃ e ∈ w.events, e.id = PiIngestEvent.idOr event uuid
          · refine .inl ⟨?_, fun _ _ => .inr hfree⟩
            have hany : (w.events.any fun e => e.id = (PiIngestEvent.row event sessionId uuid now).id) = true := by
              obtain ⟨e, he, heq⟩ := hfree
              exact List.any_eq_true.mpr ⟨e, he, decide_eq_true heq⟩
            simp only [Prog.bind_eq, alone_bind, alone_query, hquery, Bool.false_eq_true, if_false, alone_execute,
              Database.insertEvent, hany, if_true]
            rfl
          · refine .inr ⟨?_, hfree, messageId, ⟨htype, hid, hne⟩, hfound⟩
            have hany : (w.events.any fun e => e.id = (PiIngestEvent.row event sessionId uuid now).id) = false :=
              List.any_eq_false.mpr fun e he heq => hfree ⟨e, he, of_decide_eq_true heq⟩
            simp only [Prog.bind_eq, alone_bind, alone_query, hquery, Bool.false_eq_true, if_false, alone_execute,
              Database.insertEvent, hany]
            rfl

/-- The loop of a registration over its snapshot. -/
def insertInitialEvents (sessionId : String) (now : ℕ) (uuid : ℕ → String) (es : List (PiIngestEvent × ℕ)) :
    DbM Unit :=
  Prog.forEach (fun e => insertInitialEvent sessionId now e.1 (uuid e.2)) es

theorem alone_insertInitialEvents_cons {es : List (PiIngestEvent × ℕ)} {e : PiIngestEvent × ℕ} {uuid : ℕ → String}
    {w' : Tables}
    (h : alone (insertInitialEvent sessionId now e.1 (uuid e.2)) d w = (.ok (), d, w')) :
    alone (insertInitialEvents sessionId now uuid (e :: es)) d w =
    alone (insertInitialEvents sessionId now uuid es) d w' := by
  rw [insertInitialEvents, Prog.forEach, alone_bind, h]
  rfl

/-- A snapshot that is settled is not stored again. -/
theorem alone_insertInitialEvents_settled (now : ℕ) (uuid : ℕ → String) (d : Tables) {es : List (PiIngestEvent × ℕ)}
    (h : ∀ e ∈ es, Settled sessionId e.1 w.events) : alone (insertInitialEvents sessionId now uuid es) d w =
    (.ok (), d, w) := by
  induction es with
  | nil => rfl
  | cons e es ih =>
    have hskip : alone (insertInitialEvent sessionId now e.1 (uuid e.2)) d w = (.ok (), d, w) := by
      rcases alone_insertInitialEvent sessionId now e.1
        (uuid e.2) d w with ⟨hrun, -⟩ | ⟨-, hfree, messageId, hmessage, hnew⟩
      · exact hrun
      · rcases h e (by simp) messageId hmessage with hfound | ⟨id, hid, hne, e', he', heq⟩
        · cases hfound.symm.trans hnew
        · exact absurd ⟨e', he', by rw [PiIngestEvent.idOr, hid, heq]; exact (if_neg hne).symm⟩ hfree
    rw [alone_insertInitialEvents_cons hskip]
    exact ih fun e' he' => h e' (by simp [he'])

/-- What `uuid4()` makes is new: to the database, to what the bridge sends, and each time. -/
structure FreshIds (uuid : ℕ → String) (d : Tables) (events : List PiIngestEvent) : Prop where
  injective : Function.Injective uuid
  stored : ∀ e ∈ d.events, ∀ i, e.id ≠ uuid i
  sent : ∀ event ∈ events, ∀ i, event.id ≠ some (uuid i)

/-- After a snapshot has been stored it is settled. -/
theorem settled_insertInitialEvents (sessionId : String) (now : ℕ) (d w : Tables) {uuid : ℕ → String}
    (hinjective : Function.Injective uuid) {snapshot : List PiIngestEvent} {k : ℕ}
    (hstored : ∀ e ∈ w.events, ∀ i, k ≤ i → e.id ≠ uuid i)
    (hsent : ∀ event ∈ snapshot, ∀ i, event.id ≠ some (uuid i)) :
    ∃ more, alone (insertInitialEvents sessionId now uuid (snapshot.zipIdx k)) d w =
        (.ok (), d, withSessions w w.sessions w.commands (w.events ++ more)) ∧
      ∀ event ∈ snapshot, Settled sessionId event (w.events ++ more) := by
  induction snapshot generalizing k w with
  | nil => exact ⟨[], by rw [List.append_nil]; rfl, by simp⟩
  | cons event snapshot ih =>
    rw [List.zipIdx_cons]
    have hid : ∀ id, PiIngestEvent.idOr event (uuid k) = id →
        (∃ id', event.id = some id' ∧ id' ≠ "" ∧ id = id') ∨ id = uuid k := by
      rintro id rfl
      unfold PiIngestEvent.idOr
      cases event.id with
      | none => exact .inr rfl
      | some id' =>
        dsimp only
        split
        · exact .inr rfl
        · next hne => exact .inl ⟨id', rfl, hne, rfl⟩
    rcases alone_insertInitialEvent sessionId now event (uuid k) d w with
      ⟨hrun, hsettled⟩ | ⟨hrun, -, messageId, hmessage, -⟩
    · obtain ⟨more, hrest, hmore⟩ := ih w (k := k + 1) (fun e he i hi => hstored e he i (by omega))
        fun event' h => hsent event' (by simp [h])
      refine ⟨more, (alone_insertInitialEvents_cons hrun).trans hrest, fun event' h => ?_⟩
      rcases List.mem_cons.mp h with rfl | h
      · refine Settled.append (fun messageId hmessage => ?_) more
        rcases hsettled messageId hmessage with hfound | ⟨e, he, heq⟩
        · exact .inl hfound
        · rcases hid e.id heq.symm with ⟨id', hid', hne, heq'⟩ | hfresh
          · exact .inr ⟨id', hid', hne, e, he, heq'⟩
          · exact absurd hfresh (hstored e he k (Nat.le_refl k))
      · exact hmore event' h
    · have hstored' : ∀ e ∈ (withEvent w (PiIngestEvent.row event sessionId (uuid k) now)).events,
          ∀ i, k + 1 ≤ i → e.id ≠ uuid i := by
        intro e he i hi
        rcases List.mem_append.mp he with he | he
        · exact hstored e he i (by omega)
        · rw [List.mem_singleton.mp he]
          rcases hid _ rfl with ⟨id', hid', -, heq⟩ | heq
          · intro hfresh
            exact hsent event (by simp) i (hid'.trans (congrArg some (heq.symm.trans hfresh)))
          · intro hfresh
            have hk := hinjective (heq.symm.trans hfresh)
            omega
      obtain ⟨more, hrest, hmore⟩ := ih _ hstored' fun event' h => hsent event' (by simp [h])
      refine ⟨{ PiIngestEvent.row event sessionId (uuid k) now with sequence := nextSequence w sessionId } ::
        more, ?_, ?_⟩
      · rw [alone_insertInitialEvents_cons hrun, hrest]
        rw [withEvent, withSessions_events, List.append_assoc]
        rfl
      · intro event' h
        rcases List.mem_cons.mp h with rfl | h
        · intro messageId' hmessage'
          refine .inl (hasMessage_of_mem (List.mem_append_right _ (List.mem_cons_self ..)) rfl ?_)
          exact hmessage'.payload
        · have hmore' := hmore event' h
          rw [withEvent, withSessions_events, List.append_assoc] at hmore'
          exact hmore'

structure IsNewMessage (sessionId : String) (before : List PiSessionEvent) (e : PiSessionEvent) : Prop where
  session : e.sessionId = sessionId
  message : e.eventType = "message-start" ∨ e.eventType = "message-end"
  new : ∃ messageId, e.payload.getStr "message_id" = some messageId ∧ messageId ≠ "" ∧
    ∀ e' ∈ before, e'.sessionId = sessionId → e'.eventType = e.eventType →
      e'.payload.getStr "message_id" ≠ some messageId

def AddsMessages (sessionId : String) (before : List PiSessionEvent) : List PiSessionEvent → Prop
  | [] => True
  | e :: more => IsNewMessage sessionId before e ∧ AddsMessages sessionId (before ++ [e]) more

/-- A registration stores new messages only. -/
theorem addsMessages_insertInitialEvents (sessionId : String) (now : ℕ) (uuid : ℕ → String)
    (es : List (PiIngestEvent × ℕ)) (d w : Tables) :
    ∃ more, alone (insertInitialEvents sessionId now uuid es) d w =
      (.ok (), d, withSessions w w.sessions w.commands (w.events ++ more)) ∧
      AddsMessages sessionId w.events more := by
  induction es generalizing w with
  | nil => exact ⟨[], by rw [List.append_nil]; rfl, trivial⟩
  | cons e es ih =>
    rcases alone_insertInitialEvent sessionId now e.1
      (uuid e.2) d w with ⟨hrun, -⟩ | ⟨hrun, -, messageId, hmessage, hnew⟩
    · obtain ⟨more, hrest, hmore⟩ := ih w
      exact ⟨more, (alone_insertInitialEvents_cons hrun).trans hrest, hmore⟩
    · obtain ⟨more, hrest, hmore⟩ := ih (withEvent w (PiIngestEvent.row e.1 sessionId (uuid e.2) now))
      rw [withEvent, withSessions_events] at hmore
      refine ⟨_ :: more, ?_, ⟨rfl, hmessage.eventType, messageId, hmessage.payload, hmessage.messageId_ne, ?_⟩,
        hmore⟩
      · rw [alone_insertInitialEvents_cons hrun, hrest, withEvent, withSessions_events, List.append_assoc]
        rfl
      · intro e' he' hsession htype hid
        have hfound := hasMessage_of_mem he' hsession hid
        rw [htype] at hfound
        cases hfound.symm.trans hnew

def touched (now : ℕ) (s : PiSession) : PiSession := { s with lastSeen := now, updatedAt := now }

theorem set_set (o : JsonObject) (key : String) (v : JsonValue) : (o.set key v).set key v = o.set key v := by
  have hany : (o.set key v).any (fun m => m.1 = key) = true := by
    unfold JsonObject.set
    split
    · next h =>
      obtain ⟨m, hm, hkey⟩ := List.any_eq_true.mp h
      refine List.any_eq_true.mpr ⟨(key, v), List.mem_map.mpr ⟨m, hm, ?_⟩, by simp⟩
      rw [if_pos (of_decide_eq_true hkey)]
    · simp
  have hmap : ∀ m ∈ o.set key v, (if m.1 = key then (key, v) else m) = m := by
    intro m hm
    unfold JsonObject.set at hm
    split at hm
    · obtain ⟨m', -, rfl⟩ := List.mem_map.mp hm
      by_cases hkey : m'.1 = key <;> simp [hkey]
    · next hnone =>
      rcases List.mem_append.mp hm with hm | hm
      · have hne : m.1 ≠ key := fun hkey => hnone (List.any_eq_true.mpr ⟨m, hm, decide_eq_true hkey⟩)
        rw [if_neg hne]
      · rw [List.mem_singleton.mp hm, if_pos rfl]
  rw [JsonObject.set, if_pos hany, List.map_congr_left hmap, List.map_id']

theorem reregisteredSession_twice (payload : PiBridgeRegister) (now now' : ℕ) (s : PiSession) :
    reregisteredSession payload now' (reregisteredSession payload now s) =
    touched now' (reregisteredSession payload now s) := by
  unfold reregisteredSession touched
  by_cases hrole : s.role = ""
  · by_cases hblocked : s.state = .blocked <;> by_cases hname : payload.name = "" <;> by_cases hhost :
      payload.host = "" <;>
      simp [hrole, hblocked, hname, hhost]
  · by_cases hblocked : s.state = .blocked <;> by_cases hcwd : s.cwd = "" <;> simp [hrole, hblocked, hcwd]

theorem reregisteredSession_registered (payload : PiBridgeRegister) (now now' createdAt : ℕ) :
    reregisteredSession payload now' (registeredSession payload now createdAt) =
      touched now' (registeredSession payload now createdAt) := by
  unfold reregisteredSession registeredSession touched
  by_cases hname : payload.name = "" <;> by_cases hhost : payload.host = "" <;> simp [hname, hhost]

/-- The row of a second registration is that of the first one, at another time. -/
theorem registeredRow_twice (payload : PiBridgeRegister) (now now' : ℕ) (existing : Option PiSession) :
    registeredRow payload now' (some (registeredRow payload now existing)) =
    touched now' (registeredRow payload now existing) := by
  have hset : ∀ s : PiSession, (s.resumingAt payload.resumePath).resumingAt payload.resumePath =
    s.resumingAt payload.resumePath :=
    fun s => congrArg (fun m => { s with metaData := m }) (set_set s.metaData _ _)
  have hcomm : ∀ s : PiSession, reregisteredSession payload now' (s.resumingAt payload.resumePath) =
      (reregisteredSession payload now' s).resumingAt payload.resumePath := fun _ => rfl
  have htouch : ∀ s : PiSession, (touched now' s).resumingAt payload.resumePath =
    touched now' (s.resumingAt payload.resumePath) :=
    fun _ => rfl
  unfold registeredRow
  dsimp only
  cases existing with
  | none =>
    split
    · rw [hcomm, hset, reregisteredSession_registered, htouch]
    · exact reregisteredSession_registered payload now now' now
  | some s =>
    split
    · rw [hcomm, hset, reregisteredSession_twice, htouch]
    · exact reregisteredSession_twice payload now now' s

theorem updateRows_twice {R : Type} {p : R → Bool} {f f' g : R → R} (hp : ∀ r, p (f r) = p r)
    (hf : ∀ r, f' (f r) = g (f r)) (rs : List R) :
    updateRows p f' (updateRows p f rs) = updateRows p g (updateRows p f rs) := by
  unfold updateRows
  rw [List.map_map, List.map_map]
  refine List.map_congr_left fun r _ => ?_
  by_cases hr : p r = true
  · simp [hr, hp, hf]
  · simp [hr]

/-- The sessions of a second registration are those of the first one, at another time. -/
theorem registeredSessions_twice (payload : PiBridgeRegister) (now now' createdAt : ℕ) (sessions : List PiSession)
    (hnew : ¬sessions.any (fun s => s.id = payload.sessionId) = true → createdAt = now) (createdAt' : ℕ) :
    registeredSessions payload now' createdAt' (registeredSessions payload now createdAt sessions) =
      updateRows (fun s => s.id = payload.sessionId) (touched now')
      (registeredSessions payload now createdAt sessions) := by
  have hrow : ∀ s : PiSession, decide ((registeredRow payload now (some s)).id = payload.sessionId) =
    decide (s.id = payload.sessionId) :=
    fun s => by rw [registeredRow_some_id]
  by_cases hany : sessions.any (fun s => s.id = payload.sessionId) = true
  · rw [registeredSessions_of_any hany]
    have hany' : (updateRows (fun s => s.id = payload.sessionId)
      (fun s => registeredRow payload now (some s)) sessions).any
        (fun s => s.id = payload.sessionId) = true := by
      obtain ⟨s, hs, hid⟩ := List.any_eq_true.mp hany
      refine List.any_eq_true.mpr ⟨registeredRow payload now (some s), List.mem_map.mpr ⟨s, hs, if_pos hid⟩, ?_⟩
      rw [hrow]
      exact hid
    rw [registeredSessions_of_any hany']
    exact updateRows_twice hrow (fun s => registeredRow_twice payload now now' (some s)) sessions
  · obtain rfl := hnew hany
    rw [registeredSessions_of_new hany]
    have hany' : (sessions ++ [registeredRow payload createdAt none]).any (fun s => s.id = payload.sessionId) =
      true := by
      rw [List.any_append, List.any_cons, registeredRow_none_id]
      simp
    have hnone : ∀ s ∈ sessions, decide (s.id = payload.sessionId) = false := by simpa using hany
    rw [registeredSessions_of_any hany']
    unfold updateRows
    rw [List.map_append, List.map_append]
    have hother : ∀ f : PiSession → PiSession,
        sessions.map (fun s => if decide (s.id = payload.sessionId) then f s else s) = sessions :=
          fun f => updateRows_of_none hnone
    rw [hother, hother]
    simp [registeredRow_none_id, registeredRow_twice]

/-- What a registration stores. -/
theorem atomically_register {payload : PiBridgeRegister} {uuid : ℕ → String}
    (hloop : alone (insertInitialEvents payload.sessionId now uuid payload.initialEvents.zipIdx) d
        (registeredTables payload now d.events d) =
        (.ok (), d, withSessions (registeredTables payload now d.events d)
          (registeredTables payload now d.events d).sessions
          (registeredTables payload now d.events d).commands (d.events ++ more))) :
    atomically (registerInteractivePiSession payload now uuid) d =
      (.ok (registeredRow payload now (findSession d payload.sessionId)),
        registeredTables payload now (d.events ++ more) d) :=
  atomically_registerInteractivePiSession_of hloop

/-- After a batch has been stored, every id of it is taken. -/
theorem alone_insertBatchEvents (sessionId : String) (now : ℕ) (uuid : ℕ → String) (es : List (PiIngestEvent × ℕ))
    (d w : Tables) :
    ∃ persisted events, alone (insertBatchEvents sessionId now uuid es) d w =
        (.ok persisted, d, withSessions w w.sessions w.commands events) ∧ w.events ⊆ events ∧
      ∀ e ∈ es, ∃ e' ∈ events, e'.id = PiIngestEvent.idOr e.1 (uuid e.2) := by
  induction es generalizing w with
  | nil => exact ⟨[], w.events, rfl, List.Subset.refl _, by simp⟩
  | cons e es ih =>
    obtain ⟨persisted, events, hrest, hsubset, hids⟩ :=
      ih ((Database.insertEvent (PiIngestEvent.row e.1 sessionId (uuid e.2) now)).apply w)
    obtain ⟨stored, hstored, hkept, e', he', hid⟩ : ∃ stored,
        (Database.insertEvent (PiIngestEvent.row e.1 sessionId (uuid e.2) now)).apply w =
          withSessions w w.sessions w.commands stored ∧
          w.events ⊆ stored ∧ ∃ e' ∈ stored, e'.id = PiIngestEvent.idOr e.1 (uuid e.2) := by
      simp only [Database.insertEvent]
      split
      · next hany =>
        obtain ⟨e', he', hid⟩ := List.any_eq_true.mp hany
        exact ⟨w.events, rfl, List.Subset.refl _, e', he', of_decide_eq_true hid⟩
      · exact ⟨_, rfl, List.subset_append_left .., _, List.mem_append_right _ (List.mem_singleton_self _), rfl⟩
    rw [hstored] at hrest hsubset
    refine ⟨if (Database.insertEvent (PiIngestEvent.row e.1 sessionId (uuid e.2) now)).rowcount w = 0 then persisted
      else PiIngestEvent.row e.1 sessionId (uuid e.2) now :: persisted, events, ?_,
      fun x hx => hsubset (hkept hx), fun x hx => ?_⟩
    · simp only [insertBatchEvents, Prog.bind_eq, alone_bind, alone_execute, hstored, hrest]
      rfl
    · rcases List.mem_cons.mp hx with rfl | hx
      · exact ⟨e', hsubset he', hid⟩
      · exact hids x hx

/-- A batch whose ids are taken is not stored. -/
theorem alone_insertBatchEvents_taken {uuid : ℕ → String} {es : List (PiIngestEvent × ℕ)}
    (h : ∀ e ∈ es, ∃ e' ∈ w.events, e'.id = PiIngestEvent.idOr e.1 (uuid e.2)) :
    alone (insertBatchEvents sessionId now uuid es) d w = (.ok [], d, w) := by
  induction es with
  | nil => rfl
  | cons e es ih =>
    obtain ⟨e', he', hid⟩ := h e (by simp)
    have hany : (w.events.any fun x => x.id = (PiIngestEvent.row e.1 sessionId (uuid e.2) now).id) = true :=
      List.any_eq_true.mpr ⟨e', he', decide_eq_true hid⟩
    simp only [insertBatchEvents, Prog.bind_eq, alone_bind, alone_execute, Database.insertEvent, hany, if_true,
      ih fun x hx => h x (by simp [hx])]
    rfl

def seen (now : ℕ) (s : PiSession) : PiSession := { s with lastSeen := now }

section Batched

variable (session : PiSession) (payload : PiBridgeEventBatch) (pending persisted : Bool)

theorem batchedSession_state_twice (now now' : ℕ) :
    (batchedSession (batchedSession session payload pending now persisted) payload pending now' false).state =
      (batchedSession session payload pending now persisted).state := by
  unfold batchedSession
  cases hp : payload.state with
  | none => rfl
  | some state =>
    by_cases hblocked : session.state = .blocked <;> by_cases hterminal : state.terminal = true <;>
      by_cases hsame : state = .blocked <;> simp [hblocked, hterminal, hsame]

theorem batchedSession_question_twice (now now' : ℕ) :
    (batchedSession (batchedSession session payload pending now persisted) payload pending now' false).question =
      (batchedSession session payload pending now persisted).question := by
  have hquestion : ∀ (s : PiSession) (persisted : Bool) (now : ℕ),
    (batchedSession s payload pending now persisted).question =
      if (batchedSession s payload pending now persisted).state.terminal then "" else s.question := fun _ _ _ => rfl
  rw [hquestion, batchedSession_state_twice, hquestion]
  split <;> rfl

theorem batchedSession_pending_twice (now now' : ℕ) :
    (batchedSession (batchedSession session payload pending now persisted) payload pending now'
      false).hasPendingMessages =
      (batchedSession session payload pending now persisted).hasPendingMessages := by
  unfold batchedSession
  cases payload.hasPendingMessages <;> rfl

theorem batchedSession_updatedAt_twice (now now' : ℕ) :
    (batchedSession (batchedSession session payload pending now persisted) payload pending now' false).updatedAt =
      (batchedSession session payload pending now persisted).updatedAt := by
  have hstate := batchedSession_state_twice session payload pending persisted now now'
  have hpending := batchedSession_pending_twice session payload pending persisted now now'
  generalize hbatched : batchedSession session payload pending now persisted = s at *
  have hdetail : s.detail = payload.detail := by
    rw [← hbatched]
    rfl
  have hupdated : (batchedSession s payload pending now' false).updatedAt =
      if false = true ∨ (s.state, s.detail, s.hasPendingMessages) ≠
        ((batchedSession s payload pending now' false).state,
          payload.detail, (batchedSession s payload pending now' false).hasPendingMessages)
      then now' else s.updatedAt := rfl
  rw [hupdated, hstate, hpending, hdetail]
  simp

/-- The session object of a second batch is that of the first one, seen at another time. -/
theorem batchedSession_twice (now now' : ℕ) :
    batchedSession (batchedSession session payload pending now persisted) payload pending now' false =
      seen now' (batchedSession session payload pending now persisted) := by
  have hstate := batchedSession_state_twice session payload pending persisted now now'
  have hquestion := batchedSession_question_twice session payload pending persisted now now'
  have hpending := batchedSession_pending_twice session payload pending persisted now now'
  have hupdated := batchedSession_updatedAt_twice session payload pending persisted now now'
  have hdetail : (batchedSession session payload pending now persisted).detail = payload.detail := rfl
  generalize batchedSession session payload pending now persisted = s at *
  calc batchedSession s payload pending now' false
      = { s with
          state := (batchedSession s payload pending now' false).state
          question := (batchedSession s payload pending now' false).question
          detail := payload.detail
          hasPendingMessages := (batchedSession s payload pending now' false).hasPendingMessages
          lastSeen := now'
          updatedAt := (batchedSession s payload pending now' false).updatedAt } := rfl
    _ = seen now' s := by rw [hstate, hquestion, hpending, hupdated, ← hdetail]; rfl

end Batched

/-- A second registration changes the time stamps of its row only, and so does a second batch with ids, which leaves
`updated_at`; a registration stores messages only, each once. -/
structure ReplaysIdempotently (d : Tables) : Prop where
  register : ∀ (payload : PiBridgeRegister) (now : ℕ) (uuid : ℕ → String) (session : PiSession) (d' : Tables),
    FreshIds uuid d payload.initialEvents → atomically (registerInteractivePiSession payload now uuid) d =
      (.ok session, d') →
      ∀ (now' : ℕ) (uuid' : ℕ → String), atomically (registerInteractivePiSession payload now' uuid') d' =
        (.ok (touched now' session), withSessions d'
          (updateRows (fun s => s.id = payload.sessionId) (touched now') d'.sessions)
          d'.commands d'.events)
  batch : ∀ (sessionId : String) (payload : PiBridgeEventBatch) (now : ℕ) (uuid : ℕ → String) (session : PiSession)
      (persisted : List PiSessionEvent) (d' : Tables),
        (∀ event ∈ payload.events, ∃ id, event.id = some id ∧ id ≠ "") →
    atomically (applyInteractivePiEvents sessionId payload now uuid) d = (.ok (session, persisted), d') →
      ∀ (now' : ℕ) (uuid' : ℕ → String), atomically (applyInteractivePiEvents sessionId payload now' uuid') d' =
        (.ok (seen now' session, []), withSessions d'
          (updateRows (fun s => s.id = sessionId) (seen now') d'.sessions)
          d'.commands d'.events)
  messages : ∀ (payload : PiBridgeRegister) (now : ℕ) (uuid : ℕ → String) (session : PiSession) (d' : Tables),
    atomically (registerInteractivePiSession payload now uuid) d = (.ok session, d') →
      ∃ more, d'.events = d.events ++ more ∧ AddsMessages payload.sessionId d.events more

theorem register_twice {payload : PiBridgeRegister} {uuid : ℕ → String}
    (hfresh : FreshIds uuid d payload.initialEvents)
    {session : PiSession} {d' : Tables} (h : atomically (registerInteractivePiSession payload now uuid) d =
      (.ok session, d'))
    (now' : ℕ) (uuid' : ℕ → String) :
    atomically (registerInteractivePiSession payload now' uuid') d' =
      (.ok (touched now' session), withSessions d'
        (updateRows (fun s => s.id = payload.sessionId) (touched now') d'.sessions)
        d'.commands d'.events) := by
  obtain ⟨more, hloop, hsettled⟩ := settled_insertInitialEvents payload.sessionId now d
    (registeredTables payload now d.events d)
    hfresh.injective (k := 0) (fun e he i _ => hfresh.stored e he i) hfresh.sent
  have hfirst := (atomically_register hloop).symm.trans h
  rw [Prod.mk.injEq, Except.ok.injEq] at hfirst
  obtain ⟨rfl, rfl⟩ := hfirst
  generalize hd' : registeredTables payload now (d.events ++ more) d = d'
  have hevents : d'.events = d.events ++ more := by rw [← hd']; rfl
  have hfound : ∀ e ∈ payload.initialEvents.zipIdx,
      Settled payload.sessionId e.1 (registeredTables payload now' d'.events d').events := fun e he => by
    rw [registeredTables, withSessions_events, hevents]
    exact hsettled e.1 (List.fst_mem_of_mem_zipIdx he)
  have hskip := alone_insertInitialEvents_settled now' uuid' d' hfound
  rw [atomically_registerInteractivePiSession_of hskip]
  have hsession : findSession d' payload.sessionId =
    some (registeredRow payload now (findSession d payload.sessionId)) := by
    rw [← hd', findSession_registered, if_pos rfl]
  have hcommands : updateRows (PiSessionCommand.heldByOther payload.sessionId payload.incarnation)
    PiSessionCommand.released d'.commands =
      d'.commands := by
    rw [← hd', registeredTables, withSessions_commands]
    unfold updateRows
    rw [List.map_map]
    refine List.map_congr_left fun c _ => ?_
    by_cases hheld : c.heldByOther payload.sessionId payload.incarnation =
      true <;> simp [hheld, PiSessionCommand.released]
  have hsessions := registeredSessions_twice payload now now'
    (((findSession d payload.sessionId).map (·.createdAt)).getD now) d.sessions
    (fun hnone => by
      have hfind : findSession d payload.sessionId = none := by
        rw [findSession, List.find?_eq_none]
        simpa using hnone
      rw [hfind]
      rfl)
  have hrows : d'.sessions =
      registeredSessions payload now (((findSession d payload.sessionId).map (·.createdAt)).getD now)
      d.sessions := by
    rw [← hd']
    rfl
  rw [hsession, registeredRow_twice, registeredTables, hcommands]
  refine congrArg (Prod.mk _) ?_
  rw [hrows, hsessions]

theorem batch_twice {payload : PiBridgeEventBatch} {uuid : ℕ → String}
    (hids : ∀ event ∈ payload.events, ∃ id, event.id = some id ∧ id ≠ "") {session : PiSession}
    {persisted : List PiSessionEvent} {d' : Tables}
    (h : atomically (applyInteractivePiEvents sessionId payload now uuid) d = (.ok (session, persisted), d'))
    (now' : ℕ) (uuid' : ℕ → String) :
    atomically (applyInteractivePiEvents sessionId payload now' uuid') d' =
      (.ok (seen now' session, []), withSessions d' (updateRows (fun s => s.id = sessionId) (seen now') d'.sessions)
        d'.commands d'.events) := by
  have hrun := atomically_applyInteractivePiEvents sessionId payload now uuid d
  cases hcheck : checkIncarnation sessionId payload.incarnation (findSession d sessionId) with
  | error e =>
    rw [hcheck] at hrun
    cases hrun.symm.trans h
  | ok found =>
    obtain ⟨stored, events, hloop, -, htaken⟩ :=
      alone_insertBatchEvents sessionId now uuid payload.events.zipIdx d d
    have hfirst := (atomically_applyInteractivePiEvents_of hcheck hloop).symm.trans h
    rw [Prod.mk.injEq, Except.ok.injEq, Prod.mk.injEq] at hfirst
    obtain ⟨⟨rfl, rfl⟩, rfl⟩ := hfirst
    obtain ⟨hfind, hincarnation⟩ := checkIncarnation_eq_ok.mp hcheck
    generalize hpending : (payload.hasPendingMessages.isSome &&
      d.commands.any (PiSessionCommand.undelivered sessionId)) = pending
    generalize hd' : withSessions d (updateRows (fun s => s.id = sessionId) (PiSession.reported
      (batchedSession found payload pending now !stored.isEmpty) now) d.sessions) d.commands events = d'
    have hfind' : findSession d' sessionId = some (batchedSession found payload pending now !stored.isEmpty) := by
      have hrow := find?_updateRows_id (PiSession.reported
        (batchedSession found payload pending now !stored.isEmpty) now)
        (fun _ => rfl) d.sessions sessionId sessionId
      rw [if_pos rfl, show (d.sessions.find? fun s => s.id = sessionId) = some found from hfind] at hrow
      rw [← hd']
      exact hrow
    have hcheck' : checkIncarnation sessionId payload.incarnation (findSession d' sessionId) =
        .ok (batchedSession found payload pending now !stored.isEmpty) :=
          checkIncarnation_eq_ok.mpr ⟨hfind', hincarnation⟩
    have hskip : alone (insertBatchEvents sessionId now' uuid' payload.events.zipIdx) d' d' =
        (.ok [], d', withSessions d' d'.sessions d'.commands d'.events) := by
      refine alone_insertBatchEvents_taken fun e he => ?_
      obtain ⟨id, hsome, hne⟩ := hids e.1 (List.fst_mem_of_mem_zipIdx he)
      obtain ⟨e', he', hstored⟩ := htaken e he
      refine ⟨e', by rw [← hd']; exact he', ?_⟩
      rw [hstored, PiIngestEvent.idOr, PiIngestEvent.idOr, hsome]
      dsimp only
      rw [if_neg hne, if_neg hne]
    have hsecond := atomically_applyInteractivePiEvents_of hcheck' hskip
    have hcommands : d'.commands = d.commands := by rw [← hd']; rfl
    dsimp only at hsecond
    rw [hcommands, hpending] at hsecond
    rw [show (!([] : List PiSessionEvent).isEmpty) = false from rfl, batchedSession_twice] at hsecond
    rw [hsecond, hcommands, ← hd', withSessions_sessions]
    refine congrArg (fun rows => (_, withSessions _ rows _ _)) ?_
    generalize batchedSession found payload pending now (!stored.isEmpty) = session
    have hid : ∀ s : PiSession, decide ((PiSession.reported session now s).id = sessionId) =
      decide (s.id = sessionId) := fun _ => rfl
    have hrow : ∀ s : PiSession, PiSession.reported (seen now' session) now' (PiSession.reported session now s) =
        seen now' (PiSession.reported session now s) := fun _ => rfl
    exact updateRows_twice hid hrow d.sessions

theorem replays_idempotently (d : Tables) : ReplaysIdempotently d where
  register _ _ _ _ _ hfresh h := register_twice hfresh h
  batch _ _ _ _ _ _ _ hids h := batch_twice hids h
  messages payload now uuid session d' h := by
    obtain ⟨more, hloop, hmore⟩ := addsMessages_insertInitialEvents payload.sessionId now uuid
      payload.initialEvents.zipIdx d
      (registeredTables payload now d.events d)
    have hrun := (atomically_register hloop).symm.trans h
    rw [Prod.mk.injEq] at hrun
    exact ⟨more, by rw [← hrun.2]; rfl, hmore⟩

-- Ids that are made one after the other.
def counted (i : ℕ) : String := String.ofList (List.replicate (i + 1) 'u')

theorem counted_injective : Function.Injective counted := by
  intro i j h
  have hlength := congrArg List.length (String.ofList_injective h)
  rw [List.length_replicate, List.length_replicate] at hlength
  exact Nat.succ.inj hlength

def message (eventType messageId : String) : PiIngestEvent :=
  { eventType, payload := [("message_id", .str messageId)] }

/-- A snapshot with two messages, one of them sent twice, a message without an id, and a tool call. -/
def snapshot : PiBridgeRegister where
  sessionId := "t"
  incarnation := "A"
  initialEvents := [message "message-start" "m1", message "message-end" "m1", message "message-start" "m1",
    { eventType := "message-end" }, { eventType := "tool-start" }, message "message-end" "m2"]
  incarnation_ne := incarnation_ne_A

def batch : PiBridgeEventBatch where
  incarnation := "A"
  state := some .idle
  hasPendingMessages := some false
  events := [{ id := some "e1", eventType := "tool-start" }, { id := some "e2", eventType := "tool-end" },
    { id := some "e1", eventType := "tool-start" }]

theorem freshIds_snapshot : FreshIds counted {} snapshot.initialEvents where
  injective := counted_injective
  stored _ he := by cases he
  sent event hevent i := by
    have hid : ∀ event ∈ snapshot.initialEvents, event.id = none := by decide
    rw [hid event hevent]
    exact nofun

-- The tables after the registration.
def registered : Tables := (atomically (registerInteractivePiSession snapshot 10 counted) {}).2

theorem replays_idempotently_snapshot :
    (∃ session, atomically (registerInteractivePiSession snapshot 10 counted) {} = (.ok session, registered) ∧
      registered.events.map (·.eventType) = ["message-start", "message-end", "message-end"] ∧
      AddsMessages "t" [] registered.events ∧
      atomically (registerInteractivePiSession snapshot 20 fun _ => "u") registered =
        (.ok (touched 20 session),
          withSessions registered (updateRows (fun s => s.id = "t") (touched 20) registered.sessions)
          registered.commands
            registered.events)) ∧
    ∃ session persisted d', atomically (applyInteractivePiEvents "t" batch 30 counted) registered =
    (.ok (session, persisted), d') ∧
      d'.events.map (·.id) = registered.events.map (·.id) ++ ["e1", "e2"] ∧
      atomically (applyInteractivePiEvents "t" batch 40 fun _ => "u") d' =
        (.ok (seen 40 session, []),
          withSessions d' (updateRows (fun s => s.id = "t") (seen 40) d'.sessions) d'.commands d'.events) := by
  have hreplays := replays_idempotently
  constructor
  · refine ⟨_, rfl, by
      decide, ?_, (hreplays {}).register snapshot 10 counted _ registered freshIds_snapshot rfl 20 _⟩
    obtain ⟨more, hevents, hadds⟩ := (hreplays {}).messages snapshot 10 counted _ registered rfl
    exact hevents ▸ hadds
  · refine ⟨_, _, _, rfl, by decide, ?_⟩
    exact (hreplays registered).batch "t" batch 30 counted _ _ _ (by decide) rfl 40 _

end WorkerHarness.BridgeReplays
