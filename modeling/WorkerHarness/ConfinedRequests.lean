import WorkerHarness.LiveManagers
import WorkerHarness.WriteConfinement

/-!
# What the tokens of agents may write

Requests that carry the token of one session, any number of them at a time, while the bridges of the
sessions that they launch report. Every handler resolves its caller when it starts, and whatever it
calls afterwards stays within the scope of that caller.
-/

namespace WorkerHarness.ConfinedRequests

open Coroutines Database SessionRows SessionStatements LaunchedSessions LiveManagers ManagerLocks ManagerRows
open FleetRoutes Orchestrator OrchestratorCalls WriteConfinement

variable {S : Scope} {d e : Tables} {s s' : FleetWorld} {t : ℕ} {op : SessionOp} {α β : Type}

def Within (S : Scope) (d : Tables) : (β : Type) → FleetCall β → Prop
  | _, .write op => Permitted S d op ∧
    ∀ payload now uuid, op = .register payload now uuid → payload.sessionId = S.me
  | _, .nextPaneSequence sessionId => S.serves sessionId
  | _, _ => True

/-- Queries find confined tables, and drawn ids are new. -/
def Answers (S : Scope) (d : Tables) : (β : Type) → FleetCall β → β → Prop
  | _, .query q, r => ∀ v, r = .ok v → ∃ e, Confined S d e ∧ v = q e
  | _, .uuid, id => Fresh d id
  | _, _, _ => True

def Since (d e : Tables) (id : String) : Prop := Fresh d id ∧ ¬Fresh e id

def Reports (d e : Tables) : SessionOp → Prop
  | .register payload _ _ => Since d e payload.sessionId
  | .events sessionId _ _ _ => Since d e sessionId
  | .claim sessionId _ _ _ => Since d e sessionId
  | .ack sessionId _ _ _ => Since d e sessionId
  | _ => False

section Step

variable (hS : S.Sound d) (hop : Permitted S d op) (hexists : Registrable op s.db) (h : Confined S d s.db)

include hS hop hexists h

theorem confined_run : Confined S d (s.run op).db := by
  have hw := writes_run (R := fun e e' => Confined S d e ∧ Registrable op e → Confined S d e' ∧ Registrable op e')
    (fun _ hg => hg) (fun _ _ _ hg hg' he => hg' (hg he))
    (fun st hst e he => ⟨he.1.executes hS hop he.2 hst, he.2.executes hst⟩) s
  exact (hw.db ⟨h, hexists⟩).1

theorem confined_interrupt (n : ℕ) : Confined S d (s.interrupt op n).db := by
  have hw := writes_interrupt (R := fun e e' => Confined S d e ∧ Registrable op e → Confined S d e' ∧
    Registrable op e')
    (fun _ hg => hg) (fun _ _ _ hg hg' he => hg' (hg he))
    (fun st hst e he => ⟨he.1.executes hS hop he.2 hst, he.2.executes hst⟩) s n
  exact (hw.db ⟨h, hexists⟩).1

end Step

theorem registrable_of_within (hS : S.Sound d) (h : Confined S d e) (hop : ∀ payload now uuid,
    op = .register payload now uuid → payload.sessionId = S.me) : Registrable op e := by
  intro payload now uuid heq hfresh
  exact hS.known (h.fresh (hop payload now uuid heq ▸ hfresh))

theorem speaks_of_since (hS : S.Sound d) (h : Confined S d e) {id : String} (hid : Since d e id) :
    S.Speaks d id := by
  obtain ⟨r, hr, rfl⟩ := List.mem_map.mp (not_not.mp hid.2)
  rcases h.mem hr with ⟨a, ha, hc⟩ | ⟨hlaunched, hfresh⟩
  · exact absurd (hc.keeps.id ▸ List.mem_map_of_mem ha) hid.1
  · exact .inr ⟨hfresh, hS.fresh r hlaunched hfresh⟩

theorem permitted_of_reports (hS : S.Sound d) (h : Confined S d e) (hop : Reports d e op) :
    Permitted S d op ∧ Registrable op e := by
  cases op with
  | register payload now uuid =>
    refine ⟨speaks_of_since hS h hop, ?_⟩
    rintro _ _ _ ⟨⟩
    exact hop.2
  | events => exact ⟨speaks_of_since hS h hop, fun _ _ _ heq => by cases heq⟩
  | claim => exact ⟨speaks_of_since hS h hop, fun _ _ _ heq => by cases heq⟩
  | ack => exact ⟨speaks_of_since hS h hop, fun _ _ _ heq => by cases heq⟩
  | _ => exact hop.elim

def Reporting (d e : Tables) : (β : Type) → FleetCall β → Prop
  | _, .request op => Reports d e op
  | _, _ => True

theorem answers_of_handle (h : Confined S d s.db) {e : FleetCall β} {w : FleetAnswer} {b : β}
    (hh : fleetHandle e t w s = some (s', b)) : Answers S d β e b := by
  cases e with
  | query q =>
    intro v hv
    cases w with
    | done =>
      cases hh
      cases hv
      exact ⟨s.db, h, rfl⟩
    | fails e n =>
      cases hh
      cases hv
    | _ => cases hh
  | uuid =>
    cases w with
    | text id =>
      simp only [fleetHandle] at hh
      split at hh
      · next hunused =>
        cases hh
        simp only [FleetWorld.unused, Bool.and_eq_true, Bool.not_eq_true', List.any_eq_false, decide_eq_true_eq]
          at hunused
        refine h.fresh fun hmem => ?_
        obtain ⟨r, hr, hid⟩ := List.mem_map.mp hmem
        exact hunused.1.1.2 r hr hid
      · cases hh
    | _ => cases hh
  | _ => trivial

/-- One effect within the scope keeps the tables confined. -/
theorem confined_of_handle (hS : S.Sound d) (h : Confined S d s.db) {e : FleetCall β} (he : Within S d β e)
    (hreporting : Reporting d s.db β e) {w : FleetAnswer} {b : β} (hh : fleetHandle e t w s = some (s', b)) :
    Confined S d s'.db := by
  rcases tables_of_handle hh with ⟨op, hop, hs'⟩ | ⟨-, hdb, -⟩
  · have hpermitted : Permitted S d op ∧ Registrable op s.db := by
      cases e with
      | write op' =>
        cases hop
        exact ⟨he.1, registrable_of_within hS h he.2⟩
      | nextPaneSequence sessionId =>
        cases hop
        exact ⟨he, fun _ _ _ heq => by cases heq⟩
      | request op' =>
        cases hop
        exact permitted_of_reports hS h hreporting
      | _ => cases hop
    rcases hs' with rfl | ⟨n, rfl⟩
    · exact confined_run hS hpermitted.1 hpermitted.2 h
    · exact confined_interrupt hS hpermitted.1 hpermitted.2 h n
  · rw [hdb]
    exact h

variable {app : AppState} {cfg : FleetConfig} {token : String} {caller c : PiSession} {allowed : List String}

structure Serving (app : AppState) (token : String) (d : Tables) (caller : PiSession) (S : Scope) : Prop where
  sound : S.Sound d
  me : S.me = caller.id
  authentic : requireRole app bridgeRoles (.bearer token) d = .ok (some caller)

theorem requireRole_some (h : requireRole app allowed (.bearer token) d = .ok (some c)) :
    ¬(app.operatorToken ≠ "" ∧ token = app.operatorToken) ∧
      (d.sessions.find? fun s => s.tokenHash = app.sha256 token) = some c ∧ c.state.terminal = false ∧
      c.role ∈ allowed := by
  unfold requireRole at h
  dsimp only at h
  split at h
  · split at h <;> cases h
  · next hoperator =>
    split at h
    · cases h
    · next hfind =>
      split at h
      · cases h
      · next hterminal =>
        split at h
        · cases h
        · next hrole =>
          cases h
          exact ⟨hoperator, hfind, by simpa using hterminal, by simpa using hrole⟩

/-- A search that found a row finds it again, or a changed row that was before it. -/
theorem find?_map_append {p : α → Bool} {f : α → α} {rows new : List α} {a b : α} {T : α → Prop}
    (ha : rows.find? p = some a)
    (hfa : p (f a) = true) (hf : ∀ r ∈ rows, p r = false → p (f r) = true → T (f r))
    (hb : (rows.map f ++ new).find? p = some b) : b = f a ∨ T b := by
  induction rows with
  | nil => cases ha
  | cons r rows ih =>
    rw [List.map_cons, List.cons_append, List.find?_cons] at hb
    rw [List.find?_cons] at ha
    cases hr : p r with
    | true =>
      rw [hr] at ha
      cases ha
      rw [hfa] at hb
      cases hb
      exact .inl rfl
    | false =>
      rw [hr] at ha
      cases hfr : p (f r) with
      | true =>
        rw [hfr] at hb
        cases hb
        exact .inr (hf r (by simp) hr hfr)
      | false =>
        rw [hfr] at hb
        exact ih ha (fun r' hr' => hf r' (by simp [hr'])) hb

/-- In confined tables the token still belongs to the caller, or to nobody. -/
theorem Serving.resolves (hs : Serving app token d caller S) (h : Confined S d e) {r : Option PiSession}
    (hr : requireRole app allowed (.bearer token) e = .ok r) : ∃ c, r = some c ∧ Keeps caller c ∧
    caller.role ∈ allowed := by
  obtain ⟨hoperator, hfind, -, -⟩ := requireRole_some hs.authentic
  cases r with
  | none =>
    unfold requireRole at hr
    dsimp only at hr
    rw [if_neg hoperator] at hr
    split at hr
    · cases hr
    · split at hr
      · cases hr
      · split at hr <;> cases hr
  | some c =>
    obtain ⟨-, hfound, hlive, hrole⟩ := requireRole_some hr
    obtain ⟨f, new, hold, hchanges, -⟩ := h.sessions
    have hcaller : caller ∈ d.sessions := List.mem_of_find?_eq_some hfind
    have htoken : (f caller).tokenHash = app.sha256 token := by
      rw [(hchanges caller hcaller).own_token hs.sound hs.me.symm]
      simpa using List.find?_some hfind
    rw [hold] at hfound
    have hsame : c = f caller ∨ c.state.terminal = true := by
      refine find?_map_append (T := fun c => c.state.terminal = true) hfind (decide_eq_true htoken)
        (fun r hr hne heq => ?_) hfound
      refine (hchanges r hr).token.resolve_left fun ht => ?_
      rw [ht] at heq
      rw [hne] at heq
      cases heq
    rcases hsame with rfl | hterminal
    · have hk := (hchanges caller hcaller).keeps
      exact ⟨f caller, rfl, hk, hk.role ▸ hrole⟩
    · rw [hlive] at hterminal
      cases hterminal

abbrev Sends (S : Scope) (d : Tables) (R : α → Prop) (p : FleetM α) : Prop := p.Issues (Answers S d) (Within S d) R

variable {R : α → Prop} {p : FleetM α} {id : String}

theorem possible_of_answers (β : Type) (e : FleetCall β) (b : β) (h : Answers S d β e b) : Possible β e b := by
  cases e with
  | query q =>
    intro v hv
    obtain ⟨e, -, heq⟩ := h v hv
    exact ⟨e, heq⟩
  | _ => trivial

theorem terminal_of_terminalPm {state : PiSessionState} (h : state.terminalPm = true) : state.terminal = true := by
  cases state <;> first | rfl | cases h

theorem within_of_for (hid : S.serves id) (β : Type) (e : FleetCall β) (h : For id True True β e) :
    Within S d β e := by
  cases e with
  | write op =>
    cases op with
    | finish => exact ⟨.inl ⟨h.1 ▸ hid, terminal_of_terminalPm h.2⟩, fun _ _ _ heq => by cases heq⟩
    | enqueue command now =>
      have hsession : command.sessionId = id := h
      exact ⟨.inr (.inl (hsession ▸ hid)), fun _ _ _ heq => by cases heq⟩
    | nextPane sessionId =>
      have hsession : sessionId = id := h
      exact ⟨hsession ▸ hid, fun _ _ _ heq => by cases heq⟩
    | insertEvent event =>
      have hsession : event.sessionId = id := h
      exact ⟨.inr (.inl (hsession ▸ hid)), fun _ _ _ heq => by cases heq⟩
    | _ => exact h.elim
  | nextPaneSequence sessionId =>
    have hsession : sessionId = id := h
    exact hsession ▸ hid
  | _ => trivial

theorem within_of_givesUp (hid : S.waits id) (β : Type) (e : FleetCall β) (h : GivesUp id β e) :
    Within S d β e := by
  cases e with
  | write op =>
    cases op with
    | finish => exact ⟨.inr ⟨h.1 ▸ hid, h.2⟩, fun _ _ _ heq => by cases heq⟩
    | insertEvent => exact ⟨.inr (.inr (.inr ⟨h.1 ▸ hid, h.2⟩)), fun _ _ _ heq => by cases heq⟩
    | _ => exact h.elim
  | nextPaneSequence sessionId => exact h.elim
  | _ => trivial

def Reaches (S : Scope) (id : String) : Prop := S.serves id ∨ S.prompts id

theorem within_of_prompts (hid : Reaches S id) (β : Type) (e : FleetCall β) (h : Prompts id β e) :
    Within S d β e := by
  cases e with
  | write op =>
    cases op with
    | enqueue command now =>
      exact ⟨.inr (hid.imp (fun hs => h.1 ▸ hs) fun hp => ⟨h.1 ▸ hp, h.2⟩), fun _ _ _ heq => by cases heq⟩
    | insertEvent event =>
      exact ⟨.inr (hid.imp (fun hs => h.1 ▸ hs) fun hp => .inl ⟨h.1 ▸ hp, h.2⟩), fun _ _ _ heq => by cases heq⟩
    | _ => exact h.elim
  | nextPaneSequence sessionId => exact h.elim
  | _ => trivial

theorem sends_for (hid : S.serves id) (hp : Does (For id True True) R p) : Sends S d R p :=
  .of_performs possible_of_answers (within_of_for hid) hp

theorem sends_givesUp (hid : S.waits id) (hp : Does (GivesUp id) R p) : Sends S d R p :=
  .of_performs possible_of_answers (within_of_givesUp hid) hp

theorem sends_prompts (hid : Reaches S id) (hp : Does (Prompts id) R p) : Sends S d R p :=
  .of_performs possible_of_answers (within_of_prompts hid) hp

-- Its text comparison is not to be computed wherever a handler ends with it.
attribute [local irreducible] enqueuePrompt

theorem sends_enqueuePrompt {target : PiSession} (hid : Reaches S target.id) (message deliverAs : String)
    (caller : Option PiSession) : Sends S d Any (enqueuePrompt target message deliverAs caller) :=
  sends_prompts hid (prompts_enqueuePrompt target message deliverAs caller)

/-- A query finds confined tables. -/
theorem sends_query {q : Tables → α} (hR : ∀ e, Confined S d e → R (q e)) : Sends S d R (query q) := by
  refine .await trivial fun a ha => ?_
  obtain ⟨e, he, rfl⟩ := ha a rfl
  exact hR e he

theorem sends_raise (e : FleetError) : Sends S d R (.raise e : FleetM α) := trivial

theorem sends_time : Sends S d Any (Prog.call .time : FleetM ℕ) := .call trivial fun _ _ => trivial

section Handlers

variable (hs : Serving app token d caller S)

include hs

theorem sends_authorize (allowed : List String) :
    Sends S d (fun r => ∃ c, r = some c ∧ Keeps caller c ∧ caller.role ∈ allowed)
    (authorize app allowed (.bearer token)) := by
  refine (sends_query (R := fun r => ∀ o, r = .ok o → ∃ c, o = some c ∧ Keeps caller c ∧ caller.role ∈ allowed)
    fun e he o ho => hs.resolves he ho).bind fun r hr => ?_
  refine .ofExcept fun o ho => ?_
  cases r with
  | ok =>
    cases ho
    exact hr o rfl
  | error e => cases ho

/-- A handler for other roles does nothing. -/
theorem sends_refused {f : Option PiSession → FleetM α} (hrole : caller.role ∉ allowed) :
    Sends S d R ((authorize app allowed (.bearer token)).bind f) :=
  (sends_authorize hs allowed).bind fun _ ⟨_, _, _, h⟩ => absurd h hrole

theorem sends_authorizeBridge (sessionId : String) :
    Sends S d (fun _ => sessionId = S.me) (authorizeBridge app (.bearer token) sessionId) := by
  refine (sends_authorize hs bridgeRoles).bind fun r hr => ?_
  obtain ⟨c, rfl, hk, -⟩ := hr
  split
  · exact sends_raise _
  · next hid =>
    have hsame : c.id = sessionId := by simpa using hid
    exact hsame.symm.trans (hk.id.trans hs.me.symm)

omit hs in
theorem sends_bridgeError (e : FleetError) : Sends S d Any (bridgeError e) := by
  unfold bridgeError
  split <;> trivial

omit hs in
/-- The write of a bridge that speaks for the caller. -/
theorem sends_bridge (hop : Permitted S d op) (hregister : ∀ payload now uuid, op = .register payload now uuid →
    payload.sessionId = S.me) {handler : FleetError → FleetM Unit} (hh : ∀ e, Sends S d Any (handler e)) :
    Sends S d Any ((write op).catching handler) :=
  .catching (.await ⟨hop, hregister⟩ fun _ _ => trivial) hh

theorem sends_bridgeRegister (payload : PiBridgeRegister) (uuid : ℕ → String) :
    Sends S d Any (bridgeRegister app cfg (.bearer token) payload uuid) := by
  refine (sends_authorizeBridge hs payload.sessionId).bind fun r hid => ?_
  split
  · exact sends_raise _
  · refine sends_time.bind fun now _ => ?_
    refine (sends_bridge ?_ ?_ fun e => ?_).bind fun _ _ => ?_
    · exact .inl hid
    · rintro _ _ _ ⟨⟩
      exact hid
    · split <;> trivial
    · refine (Prog.Issues.call (R := Any) trivial fun _ _ => trivial).bind fun id _ => ?_
      exact .await ⟨.inl hid, fun _ _ _ heq => by cases heq⟩ fun _ _ => trivial

theorem sends_bridgeEvents (sessionId : String) (payload : PiBridgeEventBatch) (uuid : ℕ → String) :
    Sends S d Any (bridgeEvents app (.bearer token) sessionId payload uuid) := by
  refine (sends_authorizeBridge hs sessionId).bind fun r hid => sends_time.bind fun now _ => ?_
  refine sends_bridge ?_ (fun _ _ _ heq => by cases heq) sends_bridgeError
  exact .inl hid

omit hs in
theorem sends_claimRounds {sessionId : String} (hid : sessionId = S.me) (incarnation : String) (rounds : ℕ) :
    Sends S d Any (claimRounds sessionId incarnation rounds) := by
  have hclaim : ∀ now, Sends S d Any ((write (.claim sessionId incarnation now 30)).catching bridgeError) := by
    refine fun now => sends_bridge ?_ (fun _ _ _ heq => by cases heq) sends_bridgeError
    exact .inl hid
  induction rounds with
  | zero => exact sends_time.bind fun now _ => hclaim now
  | succ rounds ih =>
    refine sends_time.bind fun now _ => (hclaim now).bind fun _ _ => ?_
    exact (Prog.Issues.await (R := Any) trivial fun _ _ => trivial).bind fun _ _ => ih

theorem sends_bridgeCommands (sessionId incarnation : String) :
    Sends S d Any (bridgeCommands app (.bearer token) sessionId incarnation) := by
  refine (sends_authorizeBridge hs sessionId).bind fun r hid => ?_
  exact (Prog.Issues.call (R := Any) trivial fun _ _ => trivial).bind fun rounds _ =>
    sends_claimRounds hid incarnation rounds

theorem sends_bridgeCommandAck (sessionId commandId incarnation : String) :
    Sends S d Any (bridgeCommandAck app (.bearer token) sessionId commandId incarnation) := by
  refine (sends_authorizeBridge hs sessionId).bind fun r hid => sends_time.bind fun now _ => ?_
  refine sends_bridge ?_ (fun _ _ _ heq => by cases heq) sends_bridgeError
  exact .inl hid

end Handlers

/-- A task writes its own rows and sends prompts to its manager. -/
def taskScope (d : Tables) (caller : PiSession) : Scope where
  me := caller.id
  serves _ := False
  prompts id := ∃ r ∈ d.sessions, r.id = id ∧ r.role = "pm" ∧ id = caller.parentSessionId.getD "" ∧
    sameProject caller r = true
  waits _ := False
  launched _ := False

theorem sameProject_congr {r r' : PiSession} (hc : Keeps caller c) (hr : Keeps r r') :
    sameProject c r' = sameProject caller r := by
  have htext : c.metaText "project" = caller.metaText "project" := by
    have hget : c.metaData.get "project" = caller.metaData.get "project" := hc.project
    unfold PiSession.metaText JsonObject.getStr
    rw [hget]
  rw [sameProject, sameProject, htext, hc.project, hr.project]

theorem caller_mem (h : requireRole app bridgeRoles (.bearer token) d = .ok (some caller)) : caller ∈ d.sessions :=
  List.mem_of_find?_eq_some (requireRole_some h).2.1

theorem serving_task (h : requireRole app bridgeRoles (.bearer token) d = .ok (some caller)) :
    Serving app token d caller (taskScope d caller) where
  sound := ⟨fun hf => hf (List.mem_map_of_mem (caller_mem h)), fun hn => hn, fun hn => hn, fun _ _ _ hn => hn,
    fun _ hn => hn.elim⟩
  me := rfl
  authentic := h

section Tasks

variable (hs : Serving app token d caller (taskScope d caller))

include hs

theorem sends_authorizeTask (sessionId refusal : String) :
    Sends (taskScope d caller) d (Keeps caller) (authorizeTask app (.bearer token) sessionId refusal) := by
  refine (sends_authorize hs ["task"]).bind fun r hr => ?_
  obtain ⟨c, rfl, hk, -⟩ := hr
  dsimp only
  split
  · exact hk
  · exact sends_raise _

omit hs in
theorem sends_taskParent (hk : Keeps caller c) :
    Sends (taskScope d caller) d (fun parent => Reaches (taskScope d caller) parent.id) (taskParent c) := by
  refine (sends_query (R := fun r => ∀ parent ∈ r, parent.id = caller.parentSessionId.getD "" ∧
    ∃ e, Confined (taskScope d caller) d e ∧ parent ∈ e.sessions) fun e he parent hparent => ?_).bind fun r hr => ?_
  · rw [← hk.parent]
    exact ⟨findSession_id hparent, e, he, List.mem_of_find?_eq_some hparent⟩
  · cases r with
    | none => exact sends_raise _
    | some parent =>
      obtain ⟨hid, e, he, hmem⟩ := hr parent rfl
      dsimp only
      split
      · exact sends_raise _
      · next hrole =>
        split
        · next hproject =>
          rcases he.mem hmem with ⟨a, ha, hc⟩ | ⟨hn, -⟩
          · refine .inr ⟨a, ha, hc.keeps.id.symm, ?_, hid, ?_⟩
            · rw [← hc.keeps.role]
              exact not_not.mp hrole
            · rw [← sameProject_congr hk hc.keeps]
              exact hproject
          · exact hn.elim
        · exact sends_raise _

theorem sends_sessionAskPm (sessionId question : String) :
    Sends (taskScope d caller) d Any (sessionAskPm app (.bearer token) sessionId question) := by
  refine (sends_authorizeTask hs sessionId _).bind fun c hk => (sends_taskParent hk).bind fun parent hparent => ?_
  split
  · exact sends_raise _
  · refine sends_time.bind fun now _ => ?_
    refine (Prog.Issues.call (R := Any) trivial fun _ _ => trivial).bind fun id _ => ?_
    refine (Prog.Issues.catching (R := Any) (.await ⟨.inl hk.id, fun _ _ _ heq => by cases heq⟩ fun _ _ => trivial)
      fun e => ?_).bind fun _ _ => ?_
    · split <;> trivial
    · generalize "Task " ++ c.id ++ " asks: " ++ strip question = message
      exact sends_enqueuePrompt hparent message _ _

theorem sends_sessionNotifyPm (sessionId note : String) :
    Sends (taskScope d caller) d Any (sessionNotifyPm app (.bearer token) sessionId note) := by
  refine (sends_authorizeTask hs sessionId _).bind fun c hk => (sends_taskParent hk).bind fun parent hparent => ?_
  split
  · exact sends_raise _
  · generalize "Task " ++ c.id ++ " reports: " ++ strip note = message
    exact sends_enqueuePrompt hparent message _ _

end Tasks

structure Owns (caller r : PiSession) : Prop where
  role : r.role = "task"
  parent : r.parentSessionId = some caller.id
  project : sameProject caller r = true

/-- A manager serves its tasks and what it launches, sends prompts to orchestrators, and waits for an
orchestrator that is starting. -/
def managerScope (d : Tables) (caller : PiSession) : Scope where
  me := caller.id
  serves id := Fresh d id ∨ ∃ r ∈ d.sessions, r.id = id ∧ Owns caller r
  prompts id := ∃ r ∈ d.sessions, r.id = id ∧ r.role = "orchestrator"
  waits id := ∃ r ∈ d.sessions, r.id = id ∧ r.role = "orchestrator" ∧ r.state = .starting
  launched r := r.role = "orchestrator" ∨
    r.role = "task" ∧ r.parentSessionId = some caller.id ∧ r.project = caller.project

theorem serving_manager (hn : (d.sessions.map (·.id)).Nodup)
    (h : requireRole app bridgeRoles (.bearer token) d = .ok (some caller)) (hrole : caller.role = "pm") :
    Serving app token d caller (managerScope d caller) where
  sound := by
    have hmem := caller_mem h
    have hknown : ¬Fresh d caller.id := fun hf => hf (List.mem_map_of_mem hmem)
    refine ⟨hknown, ?_, ?_, fun r r' hk hl => ?_, fun r _ hf => .inl hf⟩
    · rintro (hf | ⟨r, hr, hid, hown⟩)
      · exact hknown hf
      · have hrole' := hown.role
        rw [eq_of_session_id hn hr hmem hid, hrole] at hrole'
        revert hrole'
        decide
    · rintro ⟨r, hr, hid, hrole', -⟩
      rw [eq_of_session_id hn hr hmem hid, hrole] at hrole'
      revert hrole'
      decide
    · change r'.role = _ ∨ r'.role = _ ∧ r'.parentSessionId = _ ∧ r'.project = _
      rw [hk.role, hk.parent, hk.project]
      exact hl
  me := rfl
  authentic := h

section Managers

variable {launching : Launch} {spec : LaunchSpec} {sid tokenText : String}

theorem serves_fresh (hid : Fresh d id) : (managerScope d caller).serves id := .inl hid

abbrev New (d : Tables) (session : PiSession) : Prop := Fresh d session.id

theorem sends_insert {row : PiSession} (hlaunched : (managerScope d caller).launched row)
    (hfresh : Fresh d row.id) :
    Sends (managerScope d caller) d Any (write (.insert row)) :=
  .await ⟨⟨hlaunched, hfresh⟩, fun _ _ _ heq => by cases heq⟩ fun _ _ => trivial

theorem sends_startAgent {session : PiSession} (hid : Fresh d session.id) :
    Sends (managerScope d caller) d (New d) (startAgent cfg launching spec session tokenText) :=
  (sends_for (serves_fresh hid) (performs_startAgent session trivial trivial cfg launching spec tokenText)).mono
    fun current hsame => by
      have hcurrent : current.id = session.id := hsame
      rwa [New, hcurrent]

theorem sends_markFailed {session : PiSession} (hid : Fresh d session.id) (error : FleetError)
    (eventType : String) :
    Sends (managerScope d caller) d Any (markFailed session error eventType) :=
  sends_for (serves_fresh hid) (performs_markFailed session error eventType)

theorem sends_cleanupFailedWorktree {session : PiSession} (hid : Fresh d session.id) :
    Sends (managerScope d caller) d Any (cleanupFailedWorktree cfg session) :=
  sends_for (serves_fresh hid) (performs_cleanupFailedWorktree session trivial cfg)

variable (hrow : ∀ sid row, Launched launching sid row → (managerScope d caller).launched row)

include hrow

theorem sends_launchIn {l : Launch} (hspec : SpecFor launching sid spec l.parentSessionId) (hsid : Fresh d sid)
    (worktree branch : String) :
    Sends (managerScope d caller) d (New d) (launchIn cfg l spec sid tokenText worktree branch) := by
  refine (Prog.Issues.attempt (R := Any) (.await trivial fun _ _ => trivial)).bind fun created _ =>
    sends_time.bind fun now _ => ?_
  cases created with
  | ok workspace =>
    exact (sends_insert (hrow sid _ (hspec _ _ _ _ _ _ _)) hsid).bind fun _ _ => sends_startAgent hsid
  | error e =>
    dsimp only
    split
    · refine (sends_insert (hrow sid _ (hspec _ _ _ _ _ _ _)) hsid).bind fun _ _ => ?_
      refine (sends_markFailed hsid _ _).bind fun _ _ => ?_
      split
      · exact (sends_cleanupFailedWorktree hsid).bind fun _ _ => sends_raise _
      · exact sends_raise _
    · exact sends_raise _

theorem sends_launchTaskIn (hspec : SpecFor launching sid spec launching.parentSessionId) (hsid : Fresh d sid) :
    Sends (managerScope d caller) d (New d) (launchTaskIn cfg launching spec sid tokenText) := by
  have hcreate : Does (For sid True True) Any (createWorktree sid launching.machine launching.repo launching.branch
      launching.baseBranch [1, 2, 3, 4, 5]) := performs_createWorktree _ _ _ _ _
  refine (sends_for (serves_fresh hsid) hcreate.attempt.any).bind fun created _ => ?_
  cases created with
  | ok created =>
    obtain ⟨worktree, branch⟩ := created
    dsimp only
    cases hnew : launchSpec cfg launching worktree branch with
    | error e => exact sends_raise e
    | ok spec' => exact sends_launchIn hrow (specFor_launchSpec hnew fun _ => rfl) hsid worktree branch
  | error e =>
    cases e with
    | worktreeError message =>
      refine sends_time.bind fun now _ => ?_
      refine (sends_insert (hrow sid _ (hspec _ _ _ _ _ _ _)) hsid).bind fun _ _ => ?_
      exact (sends_markFailed hsid _ _).bind fun _ _ => sends_raise _
    | _ => exact sends_raise _

theorem sends_launch (cfg : FleetConfig) : Sends (managerScope d caller) d (New d) (launch cfg launching) := by
  unfold launch
  split
  · exact sends_raise _
  · cases hspec : launchSpec cfg launching launching.cwd launching.branch with
    | error e => exact sends_raise e
    | ok spec =>
      refine (Prog.Issues.call (R := Fresh d) trivial fun _ hid => hid).bind fun sid hsid => ?_
      refine (Prog.Issues.call (R := Any) trivial fun _ _ => trivial).bind fun token _ => ?_
      by_cases horchestrator : launching.role = .orchestrator
      · -- The orchestrator has neither parent nor briefing.
        have htask : launching.role ≠ .task := by simp [horchestrator]
        rw [if_pos horchestrator, if_neg htask]
        exact sends_launchIn hrow (specFor_launchSpec hspec fun hl => absurd hl htask) hsid "" ""
      · rw [if_neg horchestrator]
        split
        · exact sends_launchTaskIn hrow (specFor_launchSpec hspec fun _ => rfl) hsid
        · exact sends_launchIn hrow (specFor_launchSpec hspec fun _ => rfl) hsid "" ""

omit hrow in
theorem sends_locked {R : α → Prop} {l : FleetLock} {p : FleetM α} (hp : Sends S d R p) :
    Sends S d R (locked l p) :=
  (Prog.Issues.await (R := Any) trivial fun _ _ => trivial).bind fun _ _ => .withLock hp

end Managers

/-- Whom a manager may message. -/
theorem target_of_sendRefusal {target : PiSession} (hc : c.role = "pm") (h : sendRefusal c target = none) :
    target.role = "orchestrator" ∨
      target.role = "task" ∧ target.parentSessionId = some c.id ∧ sameProject c target = true := by
  have hne : c.role ≠ "orchestrator" := by
    rw [hc]
    decide
  unfold sendRefusal at h
  rw [if_neg hne, if_pos hc] at h
  split at h
  · next htask =>
    split at h
    · next hproject => exact .inr ⟨htask.1, htask.2, hproject⟩
    · cases h
  · split at h
    · next horchestrator => exact .inl horchestrator
    · cases h

/-- Whom a manager may interrupt. -/
theorem target_of_interruptRefusal {target : PiSession} (hc : c.role = "pm")
    (h : interruptRefusal c target = none) :
    target.role = "task" ∧ target.parentSessionId = some c.id ∧ sameProject c target = true := by
  have hne : c.role ≠ "orchestrator" := by
    rw [hc]
    decide
  unfold interruptRefusal at h
  rw [if_neg hne, if_pos hc] at h
  split at h
  · next htask =>
    split at h
    · next hproject => exact ⟨htask.1, htask.2, hproject⟩
    · cases h
  · cases h

/-- What a handler appends to the mailbox and the log of a session. -/
theorem performs_enqueueCommand {target : PiSession} {command : String → ℕ → PiSessionCommand} {eventType : String}
    {payload : String → JsonObject} (hcommand : ∀ id now, (command id now).sessionId = target.id) :
    Does (For target.id True True) Any (enqueueCommand target command eventType payload) :=
  ⟨trivial, fun now _ => ⟨trivial, fun id _ =>
    (Prog.Performs.await (hcommand id now) fun _ _ => trivial).bind fun _ _ =>
    ⟨trivial, fun _ _ => .await rfl fun _ _ => trivial⟩⟩⟩

section ManagerHandlers

variable (hn : (d.sessions.map (·.id)).Nodup) (hs : Serving app token d caller (managerScope d caller))
  (hrole : caller.role = "pm")

include hn hs hrole

theorem not_owned_orchestrator {r : PiSession} (hr : r ∈ d.sessions) (h : r.role = "orchestrator") :
    r.id ≠ caller.id ∧ ¬(managerScope d caller).serves r.id := by
  refine ⟨fun hid => ?_, ?_⟩
  · rw [eq_of_session_id hn hr (caller_mem hs.authentic) hid, hrole] at h
    revert h
    decide
  · rintro (hf | ⟨a, ha, hid, hown⟩)
    · exact hf (List.mem_map_of_mem hr)
    · have htask := hown.role
      rw [eq_of_session_id hn ha hr hid, h] at htask
      revert htask
      decide

/-- An orchestrator in confined tables takes prompts; one that is starting may be waited for. -/
theorem reaches_orchestrator (h : Confined (managerScope d caller) d e) {r : PiSession} (hr : r ∈ e.sessions)
    (horchestrator : r.role = "orchestrator") : Reaches (managerScope d caller) r.id ∧
      (r.state = .starting → (managerScope d caller).serves r.id ∨ (managerScope d caller).waits r.id) := by
  rcases h.mem hr with ⟨a, ha, hc⟩ | ⟨-, hfresh⟩
  · have harole : a.role = "orchestrator" := hc.keeps.role.symm.trans horchestrator
    rw [hc.keeps.id]
    refine ⟨.inr ⟨a, ha, rfl, harole⟩, fun hstate => .inr ⟨a, ha, rfl, harole, ?_⟩⟩
    obtain ⟨hne, hserves⟩ := not_owned_orchestrator hn hs hrole ha harole
    cases hc with
    | same => exact hstate
    | own hid => exact absurd hid hne
    | served hserved => exact absurd hserved hserves
    | prompted => exact hstate
    | givenUp => cases hstate
  · exact ⟨.inl (.inl hfresh), fun _ => .inl (.inl hfresh)⟩

theorem sends_ensureOrchestrator (cfg : FleetConfig) :
    Sends (managerScope d caller) d (fun session => Reaches (managerScope d caller) session.id)
    (ensureOrchestrator cfg) := by
  refine sends_locked ?_
  refine (sends_query (R := fun sessions => ∀ session ∈ sessions, Reaches (managerScope d caller) session.id ∧
    (session.state = .starting →
      (managerScope d caller).serves session.id ∨ (managerScope d caller).waits session.id))
    fun e he session hmem => ?_).bind fun sessions hsessions => ?_
  · obtain ⟨hmem, horchestrator⟩ := LiveSessions.mem_sessionsByRole.mp hmem
    exact reaches_orchestrator hn hs hrole he hmem horchestrator
  · cases hfirst : LiveSessions.firstLive sessions with
    | some session =>
      obtain ⟨hreaches, hwaits⟩ := hsessions session (LiveSessions.firstLive_eq_some hfirst).1
      dsimp only
      unfold liveSession
      split
      · next hstarting =>
        rcases hwaits hstarting with hserves | hwait
        · refine (sends_for hserves (performs_sessionMachine session cfg)).bind fun machine _ => ?_
          refine (sends_for hserves (performs_waitForBridge session machine)).mono fun current hsame => ?_
          have hcurrent : current.id = session.id := hsame
          rwa [hcurrent]
        · refine (sends_givesUp hwait (performs_sessionMachine session cfg)).bind fun machine _ => ?_
          refine (sends_givesUp hwait (givesUp_waitForBridge session machine)).mono fun current hsame => ?_
          have hcurrent : current.id = session.id := hsame
          rwa [hcurrent]
      · exact hreaches
    | none =>
      dsimp only
      unfold launchOrchestrator
      split
      · exact sends_raise _
      · next machine _ =>
        dsimp only
        generalize (if cfg.orchestratorCwd = "" then machine.home ++
          "/Work/agent-orchestrator" else cfg.orchestratorCwd) = repo
        split
        · exact sends_raise _
        · refine (sends_launch ?_ cfg).mono fun session hnew => .inl (.inl hnew)
          exact fun sid row hrow => .inl hrow.role

omit hn hrole in
theorem sends_authorizePm : Sends (managerScope d caller) d (Keeps caller) (authorizePm app (.bearer token)) := by
  refine (sends_authorize hs ["pm"]).bind fun r hr => ?_
  obtain ⟨c, rfl, hk, -⟩ := hr
  exact hk

omit hn hs hrole in
/-- A task in confined tables that the caller owns is served. -/
theorem serves_owned (hk : Keeps caller c) (h : Confined (managerScope d caller) d e) {r : PiSession}
    (hr : r ∈ e.sessions)
    (htask : r.role = "task") (hparent : r.parentSessionId = some c.id) (hproject : sameProject c r = true) :
    (managerScope d caller).serves r.id := by
  rcases h.mem hr with ⟨a, ha, hc⟩ | ⟨-, hfresh⟩
  · refine .inr ⟨a, ha, hc.keeps.id.symm, ⟨hc.keeps.role.symm.trans htask, ?_, ?_⟩⟩
    · rw [← hc.keeps.parent, hparent, hk.id]
    · rw [← sameProject_congr hk hc.keeps]
      exact hproject
  · exact .inl hfresh

omit hn hs hrole in
theorem sends_ownedTask (hk : Keeps caller c) (sessionId : String) :
    Sends (managerScope d caller) d (fun task => (managerScope d caller).serves task.id)
    (ownedTask c sessionId) := by
  refine (sends_query (R := fun r => ∀ task ∈ r, ∃ e, Confined (managerScope d caller) d e ∧ task ∈ e.sessions)
    fun e he task htask => ⟨e, he, List.mem_of_find?_eq_some htask⟩).bind fun r hr => ?_
  cases r with
  | none => exact sends_raise _
  | some task =>
    obtain ⟨e, he, hmem⟩ := hr task rfl
    dsimp only
    split
    · exact sends_raise _
    · next hown =>
      unfold ownTask at hown
      split at hown
      · cases hown
      · next htask =>
        split at hown
        · next hproject =>
          rw [not_or, not_not, not_not] at htask
          exact serves_owned hk he hmem htask.1 htask.2 hproject
        · cases hown

theorem sends_orchestratorSend (message : String) :
    Sends (managerScope d caller) d Any (orchestratorSend app cfg (.bearer token) message) := by
  refine (sends_authorize hs _).bind fun r _ => ?_
  refine (Prog.Issues.catching (sends_ensureOrchestrator hn hs hrole cfg) fun e => ?_).bind fun session hsession =>
    ?_
  · split <;> trivial
  · exact sends_enqueuePrompt hsession _ _ _

omit hn hs hrole in
/-- A session that a handler looks up is in confined tables. -/
theorem sends_find (sessionId : String) :
    Sends S d (fun r => ∀ target ∈ r, ∃ e, Confined S d e ∧ target ∈ e.sessions)
    (query (findSession · sessionId)) :=
  sends_query fun e he _ htarget => ⟨e, he, List.mem_of_find?_eq_some htarget⟩

theorem sends_sessionSend (sessionId message : String) :
    Sends (managerScope d caller) d Any (sessionSend app cfg (.bearer token) sessionId message) := by
  refine (sends_authorize hs _).bind fun r hr => ?_
  obtain ⟨c, rfl, hk, -⟩ := hr
  refine (sends_find sessionId).bind fun r hr => ?_
  cases r with
  | none => exact sends_raise _
  | some target =>
    obtain ⟨e, he, hmem⟩ := hr target rfl
    dsimp only
    rw [Option.bind_some]
    cases hrefusal : sendRefusal c target with
    | some detail => exact sends_raise _
    | none =>
      rcases target_of_sendRefusal (hk.role.trans hrole) hrefusal with horchestrator | ⟨htask, hparent, hproject⟩
      · have hne : target.role ≠ "pm" := by
          rw [horchestrator]
          decide
        dsimp only
        rw [if_neg hne]
        exact sends_enqueuePrompt (reaches_orchestrator hn hs hrole he hmem horchestrator).1 _ _ _
      · have hne : target.role ≠ "pm" := by
          rw [htask]
          decide
        dsimp only
        rw [if_neg hne]
        exact sends_enqueuePrompt (.inl (serves_owned hk he hmem htask hparent hproject)) _ _ _

omit hn in
theorem sends_sessionInterrupt (sessionId : String) :
    Sends (managerScope d caller) d Any (sessionInterrupt app (.bearer token) sessionId) := by
  refine (sends_authorize hs _).bind fun r hr => ?_
  obtain ⟨c, rfl, hk, -⟩ := hr
  refine (sends_find sessionId).bind fun r hr => ?_
  cases r with
  | none => exact sends_raise _
  | some target =>
    obtain ⟨e, he, hmem⟩ := hr target rfl
    dsimp only
    rw [Option.bind_some]
    cases hrefusal : interruptRefusal c target with
    | some detail => exact sends_raise _
    | none =>
      obtain ⟨htask, hparent, hproject⟩ := target_of_interruptRefusal (hk.role.trans hrole) hrefusal
      dsimp only
      split
      · exact sends_for (serves_owned hk he hmem htask hparent hproject) (performs_enqueueCommand fun _ _ => rfl)
      · exact sends_raise _

omit hn hrole in
theorem sends_projectTaskCreate (projectName branch briefing : String) :
    Sends (managerScope d caller) d Any
      (projectTaskCreate app cfg (.bearer token) projectName branch briefing) := by
  refine (sends_authorizePm hs).bind fun c hk => ?_
  split
  · exact sends_raise _
  · next hproject =>
    rw [ne_eq, not_not] at hproject
    split
    · exact sends_raise _
    · next project hfind =>
      have hname : project.name = projectName := by simpa using List.find?_some hfind
      split
      · exact sends_raise _
      · refine Prog.Issues.bind (R := Any) (sends_locked ?_) fun _ _ => trivial
        refine (sends_query (R := Any) fun _ _ => trivial).bind fun parent _ => ?_
        cases parent with
        | none => exact sends_raise _
        | some parent =>
          refine (Prog.Issues.of_performs possible_of_answers (fun _ _ h => h)
            (performs_projectMachine cfg project)).bind
            fun machine _ => ?_
          refine (sends_launch ?_ cfg).mono fun _ _ => trivial
          intro sid row hrow
          have hrowProject : row.project = some (.str project.name) := hrow.project (by simp)
          refine .inr ⟨hrow.role, (hrow.parent rfl).trans (congrArg some hk.id), ?_⟩
          rw [hrowProject, hname, ← hproject, hk.project]

omit hn hrole in
theorem sends_sessionTeardown (sessionId : String) (force : Bool) :
    Sends (managerScope d caller) d Any (sessionTeardown app cfg (.bearer token) sessionId force) := by
  refine (sends_authorizePm hs).bind fun c hk => (sends_ownedTask hk sessionId).bind fun task htask => ?_
  have hteardown : Does (Within (managerScope d caller) d) Any (teardownTask cfg task force) :=
    @performs_teardownTask True True task _ trivial cfg force trivial (within_of_for htask)
  refine .catching (.of_performs possible_of_answers (fun _ _ h => h) hteardown) fun e => ?_
  split <;> trivial

omit hn hrole in
theorem sends_sessionSubmitPr (sessionId summary : String) :
    Sends (managerScope d caller) d Any (sessionSubmitPr app cfg (.bearer token) sessionId summary) := by
  refine (sends_authorizePm hs).bind fun c hk => (sends_ownedTask hk sessionId).bind fun task htask => ?_
  split
  · exact sends_raise _
  · dsimp only
    split
    · exact sends_raise _
    · refine (Prog.Issues.catching (R := Any) (.await trivial fun _ _ => trivial) fun e => ?_).bind fun url _ => ?_
      · split <;> trivial
      · refine .await ⟨⟨htask, ?_⟩, fun _ _ _ heq => by cases heq⟩ fun _ _ => trivial
        rintro m hm
        rw [List.mem_singleton.mp hm]

end ManagerHandlers

end WorkerHarness.ConfinedRequests
