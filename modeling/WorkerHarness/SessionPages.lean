import WorkerHarness.ConditionedRuns
import WorkerHarness.Transcripts
import Mathlib.Logic.Function.Basic

/-!
# The page of a session

The page shows the list, the fleet or one session. Opening a session asks the server for the session, when the
list does not have it, and for its events; then a stream brings the events that follow. The answers arrive in
any order, late ones after further navigations, and every request may fail.
-/

namespace WorkerHarness.SessionPages

open CodePoints ConditionedRuns JsonTexts NumberedLogs Transcripts

structure Session where
  id : Str
  sessionType : Str

/-- What the last navigation is to. -/
inductive View
  | list
  | global
  | session (id : Str)

def View.session? : View → Option Str
  | .session id => some id
  | _ => none

/-- What `openSession` waits for. The server answers the request for events before its answer arrives. -/
inductive Request
  | session (id : Str)
  | events (id : Str) (after : ℕ) (answer : Option (List Event))

def Request.id : Request → Str
  | .session id | .events id _ _ => id

/-- An `EventSource` that is open, and the last event that it has brought; when it connects again, the server
goes on after that one. -/
structure Source where
  id : Str
  position : ℕ

/-- `state`, with what each navigation waits for, whether the page shows that a session could not be opened,
and the prompts that were sent. -/
structure Page where
  navigation : ℕ := 0
  view : View := .list
  sessions : List Session := []
  selected : Option Session := none
  transcript : Transcript := {}
  source : Option Source := none
  requests : ℕ → Option Request := fun _ => none
  unable : Bool := false
  posts : List (Str × Str) := []

namespace Page

def request (page : Page) (navigation : ℕ) (request : Option Request) : Page :=
  { page with requests := Function.update page.requests navigation request }

def closeStream (page : Page) : Page := { page with source := none }

def connectStream (id : Str) (page : Page) : Page :=
  { page.closeStream with source := some ⟨id, page.transcript.cursor⟩ }

/-- `replayEvents` asks for the events after the cursor. -/
def replayEvents (id : Str) (navigation : ℕ) (page : Page) : Page :=
  page.request navigation (some (.events id page.transcript.cursor none))

/-- `openSession`, once `state.selected` is set. Showing the header may raise. -/
def showSession (id : Str) (navigation : ℕ) (rendered : Bool) (page : Page) : Page :=
  if rendered then page.replayEvents id navigation else { page with unable := true }

def openSession (id : Str) (rendered : Bool) (page : Page) : Page :=
  let navigation := page.navigation + 1
  let page := { page.closeStream with navigation, view := .session id, transcript := {}, unable := false }
  match page.sessions.find? fun session => session.id = id with
  | some session => { page with selected := some session }.showSession id navigation rendered
  | none => page.request navigation (some (.session id))

/-- The session that `openSession` waits for arrives. It is selected before the navigation is compared. -/
def sessionArrives (navigation : ℕ) (session : Session) (rendered : Bool) (page : Page) : Page :=
  let page := { page.request navigation none with selected := some session }
  if page.navigation ≠ navigation then page else page.showSession session.id navigation rendered

def interactive (page : Page) : Bool := page.selected.any fun session => session.sessionType = str "interactive"

/-- The events that `replayEvents` waits for arrive. -/
def eventsArrive (n : Numerals) (navigation : ℕ) (id : Str) (events : List Event) (rendered : Bool)
    (page : Page) : Page :=
  let page := page.request navigation none
  if page.navigation ≠ navigation then page
  else
    let (transcript, raised) := applyEvents n page.interactive events page.transcript
    let page := { page with transcript }
    if raised then { page with unable := true }
    else if 500 ≤ events.length then page.replayEvents id navigation
    else if rendered then page.connectStream id
    else { page with unable := true }

/-- A request of `openSession` or `replayEvents` fails. -/
def requestFails (navigation : ℕ) (page : Page) : Page :=
  let page := page.request navigation none
  if page.navigation ≠ navigation then page else { page with unable := true }

/-- The stream brings an event. What `applyEvent` raises is caught. -/
def streamed (n : Numerals) (source : Source) (event : Event) (page : Page) : Page :=
  let page := { page with source := some { source with position := event.sequence } }
  if page.selected.map (·.id) ≠ some source.id then page
  else if !event.parses then page
  else if event.sequence ≤ page.transcript.cursor then page
  else { page with transcript := (applyEvent n event page.transcript).1 }

def updated (loaded : List Session) (selected : Session) : Session :=
  (loaded.find? fun session => session.id = selected.id).getD selected

/-- The answer that `loadSessions` waits for arrives. Showing the list may raise, before the selected session is
replaced by its row. -/
def sessionsArrive (loaded : List Session) (rendered : Bool) (page : Page) : Page :=
  let page := { page with sessions := loaded }
  if rendered then { page with selected := page.selected.map (updated loaded) } else page

def openGlobal (page : Page) : Page :=
  { page.closeStream with navigation := page.navigation + 1, view := .global, selected := none }

def closeDetail (page : Page) : Page :=
  { page.closeStream with navigation := page.navigation + 1, view := .list, selected := none }

end Page

/-- What `trim` removes. -/
def isWhiteSpace (c : CodePoint) : Bool :=
  0x9 ≤ c.val && c.val ≤ 0xd || c.val = 0x20 || c.val = 0xa0 || c.val = 0x1680 || 0x2000 ≤ c.val &&
    c.val ≤ 0x200a ||
    c.val = 0x2028 || c.val = 0x2029 || c.val = 0x202f || c.val = 0x205f || c.val = 0x3000 || c.val = 0xfeff

def trim (text : Str) : Str := (text.dropWhile isWhiteSpace).rdropWhile isWhiteSpace

/-- The composer is submitted. -/
def Page.submit (message : Str) (page : Page) : Page :=
  match page.selected with
  | some session =>
    if trim message ≠ [] then { page with posts := page.posts ++ [(session.id, trim message)] } else page
  | none => page

structure World where
  page : Page := {}
  log : List Event

inductive Action
  | openSession (id : Str) (rendered : Bool)
  | openGlobal
  | closeDetail
  | sessionArrives (navigation : ℕ) (session : Session) (rendered : Bool)
  | answerEvents (navigation : ℕ)
  | eventsArrive (navigation : ℕ) (rendered : Bool)
  | requestFails (navigation : ℕ)
  | sessionsArrive (loaded : List Session) (rendered : Bool)
  | append (event : Event)
  | stream
  | submit (message : Str)

def next (log : List Event) (source : Source) : Option Event :=
  (numbering.beyond source.id source.position log).head?

def step (n : Numerals) (w : World) : Action → Option World
  | .openSession id rendered => some { w with page := w.page.openSession id rendered }
  | .openGlobal => some { w with page := w.page.openGlobal }
  | .closeDetail => some { w with page := w.page.closeDetail }
  | .sessionArrives navigation session rendered =>
    match w.page.requests navigation with
    | some (.session id) =>
      if session.id = id then some { w with page := w.page.sessionArrives navigation session rendered } else none
    | _ => none
  | .answerEvents navigation =>
    match w.page.requests navigation with
    | some (.events id after none) =>
      -- An answer with an event that has no JSON text is an error.
      let events := (numbering.beyond id after w.log).take 500
      if events.all Event.parses then some
        { w with page := w.page.request navigation (some (.events id after (some events))) }
      else none
    | _ => none
  | .eventsArrive navigation rendered =>
    match w.page.requests navigation with
    | some (.events id _ (some events)) =>
      some { w with page := w.page.eventsArrive n navigation id events rendered }
    | _ => none
  | .requestFails navigation =>
    if (w.page.requests navigation).isSome then some { w with page := w.page.requestFails navigation } else none
  | .sessionsArrive loaded rendered => some { w with page := w.page.sessionsArrive loaded rendered }
  | .append event =>
    if event.sequence = (numbering.entries event.sessionId w.log).length + 1 then some
      { w with log := w.log ++ [event] } else none
  | .stream =>
    w.page.source.bind fun source => (next w.log source).map fun event =>
      { w with page := w.page.streamed n source event }
  | .submit message => some { w with page := w.page.submit message }

variable {n : Numerals} {page : Page} {log : List Event} {id : Str} {navigation : ℕ} {session : Session}
    {rendered : Bool}

structure Shows (n : Numerals) (page : Page) (log : List Event) (id : Str) : Prop where
  view : page.view = .session id
  selected : page.selected.map (·.id) = some id
  transcript : Replays n (numbering.entries id log) page.transcript
  source : page.source = none
  later : ∀ m, page.navigation < m → page.requests m = none

structure Orderly (n : Numerals) (page : Page) (log : List Event) : Prop where
  later : ∀ m, page.navigation < m → page.requests m = none
  opens : ∀ request, page.requests page.navigation = some request → page.view = .session request.id
  selected : (∃ id, page.requests page.navigation = some (.session id)) ∨
    page.selected.map (·.id) = page.view.session?
  transcript : ∀ id, page.view = .session id → Replays n (numbering.entries id log) page.transcript
  answer : ∀ id after answer, page.requests page.navigation = some (.events id after answer) →
    after = page.transcript.cursor ∧ ∀ events, answer = some events →
      events <+: (numbering.entries id log).drop after
  source : ∀ source, page.source = some source →
    page.view = .session source.id ∧ source.position = page.transcript.cursor ∧ page.requests page.navigation = none
  opened : ∀ id, page.view = .session id → page.requests page.navigation = none → page.unable = false →
    page.source ≠ none

theorem numbers_entries (h : numbering.Dense log) (id : Str) :
    (numbering.entries id log).map (·.sequence) = List.range' 1 (numbering.entries id log).length := h id

@[simp] theorem requests_request_self (page : Page) (navigation : ℕ) (request : Option Request) :
    (page.request navigation request).requests navigation = request := Function.update_self ..

theorem requests_request_of_ne {m : ℕ} (h : m ≠ navigation) (page : Page) (request : Option Request) :
    (page.request navigation request).requests m = page.requests m := Function.update_of_ne h ..

theorem id_updated (loaded : List Session) (selected : Session) :
    (Page.updated loaded selected).id = selected.id := by
  unfold Page.updated
  cases hfind : loaded.find? fun session => session.id = selected.id with
  | none => rfl
  | some session => simpa using List.find?_some hfind

namespace Shows

theorem replayEvents (h : Shows n page log id) : Orderly n (page.replayEvents id page.navigation) log where
  later m hm := (requests_request_of_ne (Nat.ne_of_gt hm) page _).trans (h.later m hm)
  opens request hrequest := by
    cases (requests_request_self page page.navigation _).symm.trans hrequest
    exact h.view
  selected := .inr (by
    rw [Page.replayEvents, Page.request, h.selected, h.view]
    rfl)
  transcript id' hview := by
    cases h.view.symm.trans hview
    exact h.transcript
  answer id' after answer hrequest := by
    cases (requests_request_self page page.navigation _).symm.trans hrequest
    exact ⟨rfl, fun events hnone => by cases hnone⟩
  source source hsource := by
    cases h.source.symm.trans hsource
  opened id' _ hnone := by cases (requests_request_self page page.navigation _).symm.trans hnone

theorem unable (h : Shows n page log id) (hdone : page.requests page.navigation = none) :
    Orderly n { page with unable := true } log where
  later := h.later
  opens request hrequest := by cases hdone.symm.trans hrequest
  selected := .inr (by
    rw [h.selected, h.view]
    rfl)
  transcript id' hview := by
    cases h.view.symm.trans hview
    exact h.transcript
  answer id' after answer hrequest := by cases hdone.symm.trans hrequest
  source source hsource := by cases h.source.symm.trans hsource
  opened id' _ _ hable := by cases hable

theorem connectStream (h : Shows n page log id) (hdone : page.requests page.navigation = none) :
    Orderly n (page.connectStream id) log where
  later := h.later
  opens request hrequest := by cases hdone.symm.trans hrequest
  selected := .inr (by
    rw [Page.connectStream, Page.closeStream, h.selected, h.view]
    rfl)
  transcript id' hview := by
    cases h.view.symm.trans hview
    exact h.transcript
  answer id' after answer hrequest := by cases hdone.symm.trans hrequest
  source source hsource := by
    rw [Page.connectStream] at hsource
    cases hsource
    exact ⟨h.view, rfl, hdone⟩
  opened id' _ _ _ hnone := by cases hnone

theorem showSession (h : Shows n page log id) (hdone : page.requests page.navigation = none) (rendered : Bool) :
    Orderly n (page.showSession id page.navigation rendered) log := by
  cases rendered with
  | true => exact h.replayEvents
  | false => exact h.unable hdone

end Shows

theorem next_eq (h : numbering.Dense log) (source : Source) :
    next log source = (numbering.entries source.id log)[source.position]? := by
  rw [next, h.beyond_eq_drop, Int.toNat_natCast, List.head?_drop]

namespace Orderly

theorem source_eq_none (h : Orderly n page log) {request : Request}
    (hrequest : page.requests page.navigation = some request) :
    page.source = none := by
  cases hsource : page.source with
  | none => rfl
  | some source => cases (h.source source hsource).2.2.symm.trans hrequest

theorem openSession (h : Orderly n page log) (id : Str) (rendered : Bool) :
    Orderly n (page.openSession id rendered) log := by
  have hnone : page.requests (page.navigation + 1) = none := h.later _ (Nat.lt_succ_self _)
  have hlater : ∀ m, page.navigation + 1 < m → page.requests m = none := fun m hm => h.later m (by omega)
  have hempty : ∀ id, Replays n (numbering.entries id log) {} := fun id => ⟨0, Nat.zero_le _, rfl⟩
  unfold Page.openSession
  dsimp only
  split
  · next session hfind =>
    have hid : session.id = id := by simpa using List.find?_some hfind
    have hshows : Shows n { page with
        navigation := page.navigation + 1, view := .session id, selected := some session, transcript :=
          {}, source := none
        unable := false } log id := ⟨rfl, congrArg some hid, hempty id, rfl, hlater⟩
    exact hshows.showSession hnone rendered
  · constructor
    · intro m hm
      exact (requests_request_of_ne (Nat.ne_of_gt hm) ..).trans (hlater m hm)
    · intro request hrequest
      cases (requests_request_self ..).symm.trans hrequest
      rfl
    · exact .inl ⟨id, requests_request_self ..⟩
    · exact fun id' _ => hempty id'
    · intro id' after answer hrequest
      cases (requests_request_self ..).symm.trans hrequest
    · intro source hsource
      cases hsource
    · intro id' _ hrequest
      cases (requests_request_self ..).symm.trans hrequest

/-- The page of the list, and that of the fleet. -/
theorem leave (h : Orderly n page log) {view : View} (hview : view.session? = none) :
    Orderly n { page.closeStream with navigation := page.navigation + 1, view, selected := none } log where
  later m hm := h.later m (Nat.lt_of_succ_lt hm)
  opens request hrequest := by cases (h.later _ (Nat.lt_succ_self _)).symm.trans hrequest
  selected := .inr hview.symm
  transcript id hid := by
    change view = _ at hid
    rw [hid] at hview
    cases hview
  answer id after answer hrequest := by cases (h.later _ (Nat.lt_succ_self _)).symm.trans hrequest
  source source hsource := by cases hsource
  opened id hid := by
    change view = _ at hid
    rw [hid] at hview
    cases hview

/-- What an abandoned navigation waits for does not matter. -/
theorem other (h : Orderly n page log) (hne : page.navigation ≠ navigation) {request : Option Request}
    (hrequest : page.navigation < navigation → request = none) :
    Orderly n (page.request navigation request) log := by
  have hkept := requests_request_of_ne hne page request
  constructor
  · intro m hm
    by_cases heq : m = navigation
    · subst heq
      exact (requests_request_self ..).trans (hrequest hm)
    · exact (requests_request_of_ne heq ..).trans (h.later m hm)
  · exact fun request' hcurrent => h.opens request' (hkept.symm.trans hcurrent)
  · exact h.selected.imp_left fun ⟨id, hid⟩ => ⟨id, hkept.trans hid⟩
  · exact h.transcript
  · exact fun id after answer hcurrent => h.answer id after answer (hkept.symm.trans hcurrent)
  · intro source hsource
    obtain ⟨hview, hposition, hnone⟩ := h.source source hsource
    exact ⟨hview, hposition, hkept.trans hnone⟩
  · exact fun id hview hnone => h.opened id hview (hkept.symm.trans hnone)

/-- A session is selected that is the right one, or will be replaced. -/
theorem select (h : Orderly n page log) (hselected : (∃ id, page.requests page.navigation = some (.session id)) ∨
    page.view = .session session.id) : Orderly n { page with selected := some session } log := by
  refine { h with selected := hselected.imp_right fun hview => ?_ }
  rw [hview]
  rfl

theorem sessionArrives (h : Orderly n page log) (hrequest : page.requests navigation = some (.session session.id))
    (hok : navigation ≠ page.navigation → page.view = .session session.id ∨
      ∃ id, page.requests page.navigation = some (.session id)) :
    Orderly n (page.sessionArrives navigation session rendered) log := by
  unfold Page.sessionArrives
  dsimp only
  split
  · next hne =>
    refine (h.other hne fun _ => rfl).select ((hok (Ne.symm hne)).symm.imp_left fun ⟨id, hid⟩ => ⟨id, ?_⟩)
    exact (requests_request_of_ne hne ..).trans hid
  · next heq =>
    obtain rfl : page.navigation = navigation := not_not.mp heq
    have hview := h.opens _ hrequest
    have hshows : Shows n { page.request page.navigation none with selected := some session } log session.id :=
      { view := hview
        selected := rfl
        transcript := h.transcript _ hview
        source := h.source_eq_none hrequest
        later := fun m hm => (requests_request_of_ne (Nat.ne_of_gt hm) ..).trans (h.later m hm) }
    exact hshows.showSession (requests_request_self ..) rendered

/-- The server answers with the events after the cursor. -/
theorem answerEvents (h : Orderly n page log) {after : ℕ} {events : List Event}
    (hrequest : page.requests navigation = some (.events id after none))
    (hevents : events <+: (numbering.entries id log).drop after) :
    Orderly n (page.request navigation (some (.events id after (some events)))) log := by
  by_cases heq : page.navigation = navigation
  · subst heq
    have hself := requests_request_self page page.navigation (some (.events id after (some events)))
    constructor
    · exact fun m hm => (requests_request_of_ne (Nat.ne_of_gt hm) ..).trans (h.later m hm)
    · intro request hanswered
      cases hself.symm.trans hanswered
      exact h.opens (.events id after none) hrequest
    · refine h.selected.imp_left fun ⟨id', hid⟩ => ?_
      cases hrequest.symm.trans hid
    · exact h.transcript
    · intro id' after' answer hanswered
      cases hself.symm.trans hanswered
      exact ⟨(h.answer _ _ _ hrequest).1, fun events' heq => Option.some.inj heq ▸ hevents⟩
    · intro source hsource
      cases (h.source_eq_none hrequest).symm.trans hsource
    · intro id' _ hnone
      cases hself.symm.trans hnone
  · refine h.other heq fun hlt => ?_
    cases (h.later navigation hlt).symm.trans hrequest

theorem eventsArrive (h : Orderly n page log) (hdense : numbering.Dense log) {after : ℕ} {events : List Event}
    (hrequest : page.requests navigation = some (.events id after (some events))) :
    Orderly n (page.eventsArrive n navigation id events rendered) log := by
  unfold Page.eventsArrive
  dsimp only
  split
  · next hne => exact h.other hne fun _ => rfl
  · next heq =>
    obtain rfl : page.navigation = navigation := not_not.mp heq
    have hview : page.view = .session id := h.opens _ hrequest
    obtain ⟨hafter, hanswer⟩ := h.answer _ _ _ hrequest
    have hreplays := (h.transcript id hview).applyEvents (page.request page.navigation none).interactive
      (numbers_entries hdense id) (hafter ▸ hanswer events rfl)
    have hselected : page.selected.map (·.id) = some id := by
      rcases h.selected with ⟨id', hid⟩ | hselected
      · cases hrequest.symm.trans hid
      · rw [hselected, hview]
        rfl
    have hshows : Shows n { page.request page.navigation none with
        transcript := (applyEvents n (page.request page.navigation none).interactive events page.transcript).1 } log id :=
      { view := hview
        selected := hselected
        transcript := hreplays
        source := h.source_eq_none hrequest
        later := fun m hm => (requests_request_of_ne (Nat.ne_of_gt hm) ..).trans (h.later m hm) }
    have hdone := requests_request_self page page.navigation none
    split
    · exact hshows.unable hdone
    · split
      · exact hshows.replayEvents
      · split
        · exact hshows.connectStream hdone
        · exact hshows.unable hdone

theorem requestFails (h : Orderly n page log) {request : Request}
    (hrequest : page.requests navigation = some request)
    (hok : navigation = page.navigation → ∀ id, request = .session id → page.selected.map (·.id) = some id) :
    Orderly n (page.requestFails navigation) log := by
  unfold Page.requestFails
  dsimp only
  split
  · next hne => exact h.other hne fun _ => rfl
  · next heq =>
    obtain rfl : page.navigation = navigation := not_not.mp heq
    have hview := h.opens _ hrequest
    have hselected : page.selected.map (·.id) = some request.id := by
      rcases h.selected with ⟨id, hid⟩ | hselected
      · cases hrequest.symm.trans hid
        exact hok rfl id rfl
      · rw [hselected, hview]
        rfl
    have hshows : Shows n (page.request page.navigation none) log request.id :=
      { view := hview
        selected := hselected
        transcript := h.transcript _ hview
        source := h.source_eq_none hrequest
        later := fun m hm => (requests_request_of_ne (Nat.ne_of_gt hm) ..).trans (h.later m hm) }
    exact hshows.unable (requests_request_self ..)

theorem sessionsArrive (h : Orderly n page log) (loaded : List Session) (rendered : Bool) :
    Orderly n (page.sessionsArrive loaded rendered) log := by
  unfold Page.sessionsArrive
  dsimp only
  split
  · refine { h with selected := h.selected.imp_right fun hselected => ?_ }
    have hids : (page.selected.map (Page.updated loaded)).map (·.id) = page.selected.map (·.id) := by
      rw [Option.map_map]
      exact congrArg (Option.map · page.selected) (funext (id_updated loaded))
    exact hids.trans hselected
  · exact { h with }

theorem append (h : Orderly n page log) (event : Event) : Orderly n page (log ++ [event]) := by
  refine { h with transcript := fun id hview => ?_, answer := fun id after answer hrequest => ?_ }
  · rw [Numbering.entries_append]
    exact (h.transcript id hview).append _
  · obtain ⟨hafter, hanswer⟩ := h.answer id after answer hrequest
    refine ⟨hafter, fun events hevents => ?_⟩
    rw [Numbering.entries_append, List.drop_append]
    exact (hanswer events hevents).trans (List.prefix_append ..)

/-- The stream of a page brings the event after the cursor, and it is applied. -/
theorem streamed_eq (h : Orderly n page log) (hdense : numbering.Dense log) {source : Source} {event : Event}
    (hsource : page.source = some source) (hnext : next log source = some event) (hparses : event.parses = true) :
    event.sequence = page.transcript.cursor + 1 ∧ (numbering.entries source.id log)[page.transcript.cursor]? =
    some event ∧
      page.streamed n source event =
        { page with
          source := some { source with position := event.sequence }
          transcript := (applyEvent n event page.transcript).1 } := by
  obtain ⟨hview, hposition, hnone⟩ := h.source source hsource
  rw [next_eq hdense, hposition] at hnext
  have hsequence : event.sequence = page.transcript.cursor + 1 := hdense.number_of_getElem? hnext
  have hselected : page.selected.map (·.id) = some source.id := by
    rcases h.selected with ⟨id, hid⟩ | hselected
    · cases hnone.symm.trans hid
    · rw [hselected, hview]
      rfl
  refine ⟨hsequence, hnext, ?_⟩
  unfold Page.streamed
  dsimp only
  rw [if_neg (not_not.mpr hselected), hparses, Bool.not_true, if_neg Bool.false_ne_true, if_neg (by omega)]

theorem streamed (h : Orderly n page log) (hdense : numbering.Dense log) {source : Source} {event : Event}
    (hsource : page.source = some source) (hnext : next log source = some event) (hparses : event.parses = true) :
    Orderly n (page.streamed n source event) log := by
  obtain ⟨hview, -, hnone⟩ := h.source source hsource
  obtain ⟨hsequence, hget, heq⟩ := h.streamed_eq hdense hsource hnext hparses
  rw [heq]
  refine { h with
    transcript := fun id hid => ?_
    answer := fun id after answer hrequest => ?_
    source := fun source' hsource' => ?_
    opened := fun _ _ _ _ hclosed => by cases hclosed }
  · cases hview.symm.trans hid
    exact (h.transcript _ hview).applyEvent (numbers_entries hdense _) hget
  · cases hnone.symm.trans hrequest
  · cases hsource'
    refine ⟨hview, ?_, hnone⟩
    change event.sequence = (applyEvent n event page.transcript).1.cursor
    rw [cursor_applyEvent, hsequence]
    omega

theorem submit (h : Orderly n page log) (message : Str) : Orderly n (page.submit message) log := by
  unfold Page.submit
  split
  · split
    · exact { h with }
    · exact h
  · exact h

end Orderly

variable {w w' init : World} {a : Action} {as : List Action}

/-- What `openSession` and the stream do not see to: an abandoned navigation does not get its session when
another one is shown, a session whose request fails is selected already, and the stream brings JSON. -/
def Undisturbed (w : World) : Action → Prop
  | .sessionArrives navigation session _ => navigation ≠ w.page.navigation →
      w.page.view = .session session.id ∨ ∃ id, w.page.requests w.page.navigation = some (.session id)
  | .requestFails navigation => navigation = w.page.navigation →
      ∀ id, w.page.requests navigation = some (.session id) → w.page.selected.map (·.id) = some id
  | .stream => ∀ source event, w.page.source = some source → next w.log source = some event → event.parses = true
  | _ => True

structure FollowsLast (n : Numerals) (w : World) : Prop where
  selected : w.page.selected.map (·.id) = w.page.view.session?
  transcript : ∀ id, w.page.view = .session id → w.page.transcript.cursor ≤ (numbering.entries id w.log).length ∧
    w.page.transcript = replayed n ((numbering.entries id w.log).take w.page.transcript.cursor)
  source : ∀ id, w.page.view = .session id → w.page.unable = false →
    w.page.source = some ⟨id, w.page.transcript.cursor⟩
  streamed : ∀ source event, w.page.source = some source → next w.log source = some event → event.parses = true →
    w.page.view = .session source.id ∧ event.sequence = w.page.transcript.cursor + 1 ∧
      (w.page.streamed n source event).transcript = (applyEvent n event w.page.transcript).1
  posts : ∀ message, trim message ≠ [] →
    (w.page.submit message).posts = w.page.posts ++ (w.page.view.session?.map fun id => (id, trim message)).toList

theorem Orderly.followsLast (h : Orderly n w.page w.log) (hdense : numbering.Dense w.log)
    (hdone : w.page.requests w.page.navigation = none) : FollowsLast n w where
  selected := h.selected.resolve_left fun ⟨id, hid⟩ => by cases hdone.symm.trans hid
  transcript id hview := (h.transcript id hview).eq_replayed (numbers_entries hdense id)
  source id hview hable := by
    obtain ⟨source, hsource⟩ := Option.ne_none_iff_exists'.mp (h.opened id hview hdone hable)
    obtain ⟨hview', hposition, -⟩ := h.source source hsource
    cases hview.symm.trans hview'
    rw [hsource, ← hposition]
  streamed source event hsource hnext hparses := by
    obtain ⟨hsequence, -, heq⟩ := h.streamed_eq hdense hsource hnext hparses
    exact ⟨(h.source source hsource).1, hsequence, by rw [heq]⟩
  posts message hmessage := by
    have hselected := h.selected.resolve_left fun ⟨id, hid⟩ => by cases hdone.symm.trans hid
    rw [← hselected]
    unfold Page.submit
    split
    · next session heq =>
      rw [if_pos hmessage, heq]
      rfl
    · next heq =>
      rw [heq]
      exact (List.append_nil _).symm

theorem orderly_step (h : Orderly n w.page w.log) (hdense : numbering.Dense w.log) (hok : Undisturbed w a)
    (hstep : step n w a = some w') : Orderly n w'.page w'.log ∧ numbering.Dense w'.log := by
  cases a with
  | openSession id rendered => exact Option.some.inj hstep ▸ ⟨h.openSession id rendered, hdense⟩
  | openGlobal => exact Option.some.inj hstep ▸ ⟨h.leave rfl, hdense⟩
  | closeDetail => exact Option.some.inj hstep ▸ ⟨h.leave rfl, hdense⟩
  | sessionArrives navigation session rendered =>
    simp only [step] at hstep
    split at hstep
    · next id hrequest =>
      split at hstep
      · next hid =>
        subst hid
        exact Option.some.inj hstep ▸ ⟨h.sessionArrives hrequest hok, hdense⟩
      · cases hstep
    · cases hstep
  | answerEvents navigation =>
    simp only [step] at hstep
    split at hstep
    · next id after hrequest =>
      split at hstep
      · refine Option.some.inj hstep ▸ ⟨h.answerEvents hrequest ?_, hdense⟩
        rw [hdense.beyond_eq_drop, Int.toNat_natCast]
        exact List.take_prefix ..
      · cases hstep
    · cases hstep
  | eventsArrive navigation rendered =>
    simp only [step] at hstep
    split at hstep
    · next hrequest => exact Option.some.inj hstep ▸ ⟨h.eventsArrive hdense hrequest, hdense⟩
    · cases hstep
  | requestFails navigation =>
    simp only [step] at hstep
    split at hstep
    · next hsome =>
      obtain ⟨request, hrequest⟩ := Option.isSome_iff_exists.mp hsome
      exact Option.some.inj hstep ▸ ⟨h.requestFails hrequest fun heq id hid => hok heq id (hid ▸ hrequest), hdense⟩
    · cases hstep
  | sessionsArrive loaded rendered => exact Option.some.inj hstep ▸ ⟨h.sessionsArrive loaded rendered, hdense⟩
  | append event =>
    simp only [step] at hstep
    split at hstep
    · next hnumber => exact Option.some.inj hstep ▸ ⟨h.append event, hdense.append_next hnumber⟩
    · cases hstep
  | stream =>
    obtain ⟨source, hsource, hstep⟩ := Option.bind_eq_some_iff.mp hstep
    obtain ⟨event, hnext, rfl⟩ := Option.map_eq_some_iff.mp hstep
    exact ⟨h.streamed hdense hsource hnext (hok source event hsource hnext), hdense⟩
  | submit message => exact Option.some.inj hstep ▸ ⟨h.submit message, hdense⟩

/-- The page is loaded. -/
theorem orderly_init (log : List Event) : Orderly n {} log where
  later _ _ := rfl
  opens _ hrequest := by cases hrequest
  selected := .inr rfl
  transcript _ hview := by cases hview
  answer _ _ _ hrequest := by cases hrequest
  source _ hsource := by cases hsource
  opened _ hview := by cases hview

/-- A page that was loaded follows its last navigation as long as what it does not see to does not happen. -/
theorem follows_last_navigation (hdense : numbering.Dense log) (hrun : run (step n) { log } as = some w)
    (hok : Along (step n) Undisturbed { log } as) (hdone : w.page.requests w.page.navigation = none) :
    FollowsLast n w := by
  have hkept := run_invariant (fun w => Orderly n w.page w.log ∧ numbering.Dense w.log)
    (fun w a w' h hok hstep => orderly_step h.1 h.2 hok hstep) ⟨orderly_init log, hdense⟩ hok hrun
  exact hkept.1.followsLast hkept.2 hdone

def interactiveSession (id : Str) : Session := ⟨id, str "interactive"⟩

def firstEvent (id : Str) : Event := ⟨str "e", id, "agent-start", [], 0, 1⟩

/-- One session is opened and then another, whose events are followed and which gets a message; the first one is
not opened any more when it arrives. -/
def opened : List Action :=
  [.openSession [0x61] true, .openSession [0x62] true, .sessionArrives 1 (interactiveSession [0x61]) true,
    .sessionArrives 2 (interactiveSession [0x62]) true, .answerEvents 2, .eventsArrive 2 true,
      .append (firstEvent [0x62]), .stream,
    .submit [0x68]]

theorem undisturbed_opened : Along (step noNumerals) Undisturbed { log := [] } opened := by
  refine ⟨trivial, fun w₁ h₁ => ?_⟩
  obtain rfl := Option.some.inj h₁
  refine ⟨trivial, fun w₂ h₂ => ?_⟩
  obtain rfl := Option.some.inj h₂
  refine ⟨fun _ => .inr ⟨[0x62], rfl⟩, fun w₃ h₃ => ?_⟩
  obtain rfl := Option.some.inj h₃
  refine ⟨fun hne => absurd rfl hne, fun w₄ h₄ => ?_⟩
  obtain rfl := Option.some.inj h₄
  refine ⟨trivial, fun w₅ h₅ => ?_⟩
  obtain rfl := Option.some.inj h₅
  refine ⟨trivial, fun w₆ h₆ => ?_⟩
  obtain rfl := Option.some.inj h₆
  refine ⟨trivial, fun w₇ h₇ => ?_⟩
  obtain rfl := Option.some.inj h₇
  refine ⟨fun source event hsource hnext => ?_, fun w₈ h₈ => ?_⟩
  · cases hsource
    exact Option.some.inj hnext ▸ rfl
  · obtain rfl := Option.some.inj h₈
    exact ⟨trivial, fun _ _ => trivial⟩

theorem follows_opened : ∃ w, run (step noNumerals) { log := [] } opened = some w ∧ FollowsLast noNumerals w ∧
    w.page.posts = [([0x62], [0x68])] :=
  ⟨_, rfl, follows_last_navigation Numbering.dense_nil
    (show run (step noNumerals) { log := [] } opened = some _ from rfl)
    undisturbed_opened rfl, rfl⟩

def crossed : List Action :=
  [.openSession [0x61] true, .openSession [0x62] true, .sessionArrives 2 (interactiveSession [0x62]) true,
    .answerEvents 2,
    .eventsArrive 2 true, .sessionArrives 1 (interactiveSession [0x61]) true]

theorem not_follows_last : ¬ ∀ (n : Numerals) (log : List Event) (as : List Action) (w : World),
    numbering.Dense log →
    run (step n) { log } as = some w → w.page.requests w.page.navigation = none → FollowsLast n w := by
  intro h
  have hselected := (h noNumerals [] crossed _ Numbering.dense_nil rfl rfl).selected
  exact absurd hselected (by decide)

end WorkerHarness.SessionPages
