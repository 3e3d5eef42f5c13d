import Zodia.App.Consent

/-!
# Consent gating

Exact birth data goes only to peers the user agreed to exchange it with. Three steps can
break this: accepting a request while another one comes first in the map's order,
removing a peer while an exchange with it is under way, and starting from a `peers.tsv`
in which a geohash with a newline in it has planted a line of its own.

## Main definitions

* `AppState.Gated` — what a step sends, it sends to a peer the user agreed to.
* `AppState.Clean` — the step is none of the three.
* `AppState.Inv` — rows, tasks, messages and files agree with what the user agreed to.

## Main results

* `gated_acceptConsent_iff` — accepting a request is gated exactly when it is foremost.
* `consent_gated` — every step of a run of clean steps is gated.
-/

namespace Zodia.App

open Lib StargazerMap

variable {F Channel : Type}

/-! ## The foremost request -/

/-- Every request of another peer stands behind one of the peer `shown`. -/
def Foremost (shown : PeerId) (order : List (Stargazer F Channel)) : Prop :=
  ∀ before other after, order = before ++ other :: after → other.incoming.isSome →
    other.peerId = shown ∨ ∃ first ∈ before, first.peerId = shown ∧ first.incoming.isSome

theorem peerId_of_firstIncoming {order : List (Stargazer F Channel)} {peerId : PeerId}
    {channel : Channel} (h : firstIncoming order = some (peerId, channel)) :
    ∃ s ∈ order, s.peerId = peerId ∧ s.incoming.isSome := by
  obtain ⟨s, hs, found⟩ := List.exists_of_findSome?_eq_some h
  obtain ⟨c, hc, same⟩ := Option.map_eq_some_iff.1 found
  exact ⟨s, hs, (Prod.mk.inj same).1, by simp [hc]⟩

theorem foremost_iff {shown : PeerId} {order : List (Stargazer F Channel)} :
    Foremost shown order ↔
      ∀ peerId channel, firstIncoming order = some (peerId, channel) → peerId = shown := by
  constructor
  · intro foremost peerId channel h
    obtain ⟨before, other, after, rfl, found, none⟩ := List.findSome?_eq_some_iff.1 h
    obtain ⟨c, hc, same⟩ := Option.map_eq_some_iff.1 found
    obtain ⟨rfl, rfl⟩ := Prod.mk.inj same
    rcases foremost before other after rfl (by simp [hc]) with rfl | ⟨first, hfirst, -, some⟩
    · rfl
    · have := none first hfirst
      simp_all
  · rintro picked before other after rfl pending
    obtain ⟨c, hc⟩ := Option.isSome_iff_exists.1 pending
    cases front : firstIncoming before with
    | some first =>
      obtain ⟨s, hs, hid, incoming⟩ := peerId_of_firstIncoming front
      have whole : firstIncoming (before ++ other :: after) = some first := by
        simp only [firstIncoming] at front ⊢
        rw [List.findSome?_append, front, Option.some_or]
      exact .inr ⟨s, hs, hid.trans (picked _ _ whole), incoming⟩
    | none =>
      have whole : firstIncoming (before ++ other :: after) = some (other.peerId, c) := by
        simp only [firstIncoming] at front ⊢
        rw [List.findSome?_append, front]
        simp [hc]
      exact .inl (picked _ _ whole)

/-- The request in the consent bar is foremost, as long as the map stays as it is. -/
theorem foremost_of_consentBar {shown : PeerId} {more : ℕ} {order : List (Stargazer F Channel)}
    (h : consentBar order = some (shown, more)) : Foremost shown order := by
  apply foremost_iff.2
  intro peerId channel first
  rw [consentBar, first] at h
  exact (Prod.mk.inj (Option.some.inj h)).1

/-! ## What the user agreed to -/

namespace AppState

/-- Whatever the step sends, it sends to a peer the user agreed to exchange data with: to
the peer whose request was shown when a request is accepted, and otherwise to one the
user proposed to, or one connected with the user's consent and not removed since. -/
def Gated (st : AppState F Channel) (e : AppEvent F Channel) : Prop :=
  ∀ peerId ourBlob, st.sends e = some (peerId, ourBlob) →
    match e with
    | .acceptConsent shown _ _ => peerId = shown
    | _ => st.consents.Known peerId

/-- Accepting a request sends to the peer that was shown exactly when its request is
foremost, or when there is no birth data to send. -/
theorem gated_acceptConsent_iff {st : AppState F Channel} {shown : PeerId}
    {order : List (Stargazer F Channel)} {reply : Option (ConsentBlob F)} :
    st.Gated (.acceptConsent shown order reply) ↔ Foremost shown order ∨ st.birth = none := by
  cases birth : st.birth with
  | none => simp [Gated, sends, makeConsentBlob, birth]
  | some b =>
    simp only [foremost_iff, Gated, sends, makeConsentBlob, birth, reduceCtorEq, or_false]
    cases firstIncoming order with
    | none => simp
    | some first => simp [Prod.ext_iff]

variable (T : FloatText F)

/-- A request is accepted when it is foremost; a peer is removed when no exchange with it
is under way, unless the user once proposed to it; the application starts from a
`peers.tsv` that names only peers that were connected or that the user proposed to. -/
def Clean (st : AppState F Channel) : AppEvent F Channel → Prop
  | .acceptConsent shown order _ => Foremost shown order ∨ st.birth = none
  | .removeStargazer peerId => peerId ∈ st.consents.proposed ∨
      (∀ task ∈ st.tasks, task.peerId ≠ peerId) ∧ ∀ msg ∈ st.completions, msg.peerId ≠ peerId
  | .restart => ∀ peerId, (loadConnectedStargazers T st.peersTsv peerId).isSome →
      peerId ∈ st.consents.proposed ∨ (connectedBlob? st.stargazers peerId).isSome
  | _ => True

end AppState

namespace Consents

/-- What the state of a stargazer says about the user's consent. -/
def Fits (c : Consents) (peerId : PeerId) : StargazerState F Channel → Prop
  | .connected _ => c.Known peerId
  | .outgoingPending => peerId ∈ c.proposed
  | _ => True

/-- The user agreed to more. -/
structure Grows (c c' : Consents) : Prop where
  proposed : ∀ peerId ∈ c.proposed, peerId ∈ c'.proposed
  trusted : ∀ peerId ∈ c.trusted, peerId ∈ c'.trusted

theorem grows_connect (c : Consents) (peerId : PeerId) : c.Grows (c.connect peerId) :=
  ⟨fun _ h => h, fun _ h => List.mem_cons_of_mem _ h⟩

theorem grows_propose (c : Consents) (peerId : PeerId) : c.Grows (c.propose peerId) :=
  ⟨fun _ h => List.mem_cons_of_mem _ h, fun _ h => h⟩

theorem Known.grow {c c' : Consents} {peerId : PeerId} (h : c.Known peerId) (grows : c.Grows c') :
    c'.Known peerId := h.imp (grows.proposed peerId) (grows.trusted peerId)

theorem Fits.grow {c c' : Consents} {peerId : PeerId} {state : StargazerState F Channel}
    (h : c.Fits peerId state) (grows : c.Grows c') : c'.Fits peerId state := by
  cases state with
  | connected birth => exact Known.grow h grows
  | outgoingPending => exact grows.proposed peerId h
  | discovered => trivial
  | incomingPending channel => trivial

theorem Fits.known {c : Consents} {peerId : PeerId} {state : StargazerState F Channel}
    (h : c.Fits peerId state)
    (hs : state = .outgoingPending ∨ ∃ birth, state = .connected birth) : c.Known peerId := by
  rcases hs with rfl | ⟨birth, rfl⟩
  · exact .inl h
  · exact h

/-- Removing a peer takes back nothing that was agreed with another one. -/
theorem Known.remove {c : Consents} {peerId other : PeerId} (h : c.Known other)
    (hne : other ∈ c.proposed ∨ other ≠ peerId) : (c.remove peerId).Known other := by
  rcases h with proposed | trusted
  · exact .inl proposed
  · rcases hne with proposed | ne
    · exact .inl proposed
    · exact .inr (by simp [Consents.remove, trusted, ne])

end Consents

/-! ## The invariant -/

namespace AppState

/-- Connected peers, exchanges under way and finished exchanges are with peers the user
agreed to, and the user proposed to the peers that are sought. -/
structure Inv (st : AppState F Channel) : Prop where
  rows : ∀ s ∈ st.stargazers, st.consents.Fits s.peerId s.state
  tasks : ∀ task ∈ st.tasks, st.consents.Known task.peerId
  completions : ∀ msg ∈ st.completions, st.consents.Known msg.peerId
  pendingFile : ∀ peerId ∈ loadPending st.pendingTsv, peerId ∈ st.consents.proposed

variable {T : FloatText F} {solarMonth : F → UInt8} {st : AppState F Channel}

/-! ### Parts of steps -/

theorem Inv.stateOf (h : st.Inv) {peerId : PeerId} {state : StargazerState F Channel}
    (hs : st.stargazers.stateOf peerId = some state) : st.consents.Fits peerId state := by
  obtain ⟨s, found, rfl⟩ := Option.map_eq_some_iff.1 hs
  obtain ⟨hmem, rfl⟩ := Table.find?_eq_some.1 found
  exact h.rows s hmem

theorem Inv.grow (h : st.Inv) {c : Consents} (grows : st.consents.Grows c) :
    ({ st with consents := c } : AppState F Channel).Inv where
  rows s hs := (h.rows s hs).grow grows
  tasks task htask := (h.tasks task htask).grow grows
  completions msg hmsg := (h.completions msg hmsg).grow grows
  pendingFile peerId hp := grows.proposed peerId (h.pendingFile peerId hp)

/-- A map whose rows are old or fit. -/
theorem Inv.withRows (h : st.Inv) {m : StargazerMap F Channel}
    (hm : ∀ s ∈ m, s ∈ st.stargazers ∨ st.consents.Fits s.peerId s.state) :
    ({ st with stargazers := m } : AppState F Channel).Inv where
  rows s hs := (hm s hs).elim (h.rows s) id
  tasks := h.tasks
  completions := h.completions
  pendingFile := h.pendingFile

theorem Inv.setState (h : st.Inv) {peerId : PeerId} {state : StargazerState F Channel}
    (fits : st.consents.Fits peerId state) :
    ({ st with stargazers := st.stargazers.setState peerId state } : AppState F Channel).Inv :=
  h.withRows fun s hs => by
    rcases mem_setState hs with old | ⟨id, state⟩
    · exact .inl old
    · exact .inr (by rwa [id, state])

theorem Inv.setStateOrInsert (h : st.Inv) (fresh : Stargazer F Channel)
    (fits : st.consents.Fits fresh.peerId fresh.state) :
    ({ st with stargazers := st.stargazers.setStateOrInsert fresh } : AppState F Channel).Inv :=
  h.withRows fun s hs => by
    rcases mem_setStateOrInsert hs with old | ⟨id, state⟩
    · exact .inl old
    · exact .inr (by rwa [id, state])

theorem Inv.erase (h : st.Inv) (peerId : PeerId) :
    ({ st with stargazers := st.stargazers.erase peerId } : AppState F Channel).Inv :=
  h.withRows fun _ hs => .inl (Table.mem_erase.1 hs).1

theorem Inv.savePending (h : st.Inv) :
    ({ st with pendingTsv := savePending st.stargazers } : AppState F Channel).Inv where
  rows := h.rows
  tasks := h.tasks
  completions := h.completions
  pendingFile peerId hp := by
    rw [loadPending_savePending] at hp
    obtain ⟨s, hs, rfl⟩ := List.mem_map.1 hp
    obtain ⟨hmem, seeking⟩ := List.mem_filter.1 hs
    have fits := h.rows s hmem
    unfold Stargazer.seeking at seeking
    cases state : s.state <;> simp_all [Consents.Fits]

theorem Inv.addTask (h : st.Inv) {task : ConsentTask F} (known : st.consents.Known task.peerId) :
    ({ st with tasks := st.tasks ++ [task] } : AppState F Channel).Inv where
  rows := h.rows
  tasks t ht := by
    rcases List.mem_append.1 ht with old | new
    · exact h.tasks t old
    · rwa [List.mem_singleton.1 new]
  completions := h.completions
  pendingFile := h.pendingFile

theorem Inv.dropTask (h : st.Inv) (i : ℕ) :
    ({ st with tasks := st.tasks.eraseIdx i } : AppState F Channel).Inv :=
  ⟨h.rows, fun task ht => h.tasks task (List.mem_of_mem_eraseIdx ht), h.completions,
    h.pendingFile⟩

/-! ### The handlers -/

theorem Inv.reconnect (h : st.Inv) (peerId : PeerId) : (st.reconnect peerId).Inv := by
  unfold AppState.reconnect
  split
  · next isNew ourBlob kind _ _ =>
    refine h.addTask ?_
    unfold reconnectKind at kind
    split at kind
    · next birth state => exact (h.stateOf state).known (.inr ⟨birth, rfl⟩)
    · next state => exact (h.stateOf state).known (.inl rfl)
    · cases kind
  · exact h

theorem Inv.proposeConsent (h : st.Inv) (peerId : PeerId) : (st.proposeConsent peerId).Inv := by
  have proposed := h.grow (st.consents.grows_propose peerId)
  unfold AppState.proposeConsent
  split
  · exact proposed
  · exact proposed
  · have sought : (st.consents.propose peerId).Fits peerId
        (.outgoingPending : StargazerState F Channel) := List.mem_cons_self
    exact (Inv.setStateOrInsert proposed (.outgoingPending peerId) sought).savePending

/-- A peer is removed with which no exchange is under way, or which the user proposed to. -/
theorem Inv.removeStargazer (h : st.Inv) {peerId : PeerId}
    (clean : st.Clean T (.removeStargazer peerId)) : (st.removeStargazer T peerId).Inv := by
  have erased : ({ st with
      stargazers := st.stargazers.erase peerId
      consents := st.consents.remove peerId } : AppState F Channel).Inv := by
    refine ⟨fun s hs => ?_, fun task ht => ?_, fun msg hm => ?_, h.pendingFile⟩
    · obtain ⟨hmem, ne⟩ := Table.mem_erase.1 hs
      have fits := h.rows s hmem
      cases state : s.state <;> rw [state] at fits
      case connected birth => exact Consents.Known.remove fits (.inr ne)
      case outgoingPending => exact fits
      all_goals trivial
    · exact (h.tasks task ht).remove (by grind [Clean])
    · exact (h.completions msg hm).remove (by grind [Clean])
  unfold AppState.removeStargazer
  split
  · exact erased.savePending
  · exact ⟨erased.rows, erased.tasks, erased.completions, erased.pendingFile⟩
  · exact erased

theorem Inv.acceptConsent (h : st.Inv) {shown : PeerId} {order : List (Stargazer F Channel)}
    {reply : Option (ConsentBlob F)} (clean : st.Clean T (.acceptConsent shown order reply)) :
    (st.acceptConsent T shown order reply).Inv := by
  unfold AppState.acceptConsent
  split
  · exact h
  · next peerId channel first =>
    have declined : ({ st with
        stargazers := st.stargazers.setState peerId .discovered } : AppState F Channel).Inv :=
      Inv.setState h trivial
    split
    · exact declined
    · next ourBlob blob =>
      split
      · next theirBlob =>
        have foremost : Foremost shown order := by
          rcases clean with foremost | none
          · exact foremost
          · simp [makeConsentBlob, none] at blob
        obtain rfl := foremost_iff.1 foremost peerId channel first
        have grown := h.grow (st.consents.grows_connect peerId)
        have known : (st.consents.connect peerId).Fits peerId
            (.connected theirBlob : StargazerState F Channel) := .inr List.mem_cons_self
        have connected := Inv.setState grown known
        rw [accepted, if_pos rfl]
        exact ⟨connected.rows, connected.tasks, connected.completions, connected.pendingFile⟩
      · exact ⟨declined.rows, declined.tasks, declined.completions, declined.pendingFile⟩

theorem Inv.rejectConsent (h : st.Inv) (order : List (Stargazer F Channel)) :
    (st.rejectConsent order).Inv := by
  unfold AppState.rejectConsent
  split
  · exact h
  · exact Inv.setState h trivial

/-- An announce leaves every state as it is. -/
theorem Inv.peerDiscovered (h : st.Inv) (peerId : PeerId) (blob : AnnounceBlob)
    (approx : List String) : (st.peerDiscovered peerId blob approx).Inv := by
  unfold AppState.peerDiscovered
  split
  · apply h.withRows
    intro s hs
    rcases Table.mem_modify.1 hs with ⟨old, -⟩ | ⟨r, hr, -, rfl⟩
    · exact .inl old
    · exact .inr (h.rows r hr)
  · apply h.withRows
    intro s hs
    rcases Table.mem_upsert.1 hs with ⟨old, -⟩ | rfl
    · exact .inl old
    · exact .inr trivial

theorem Inv.peerLeft (h : st.Inv) (peerId : PeerId) : (st.peerLeft peerId).Inv := by
  unfold AppState.peerLeft
  split
  · exact h.erase peerId
  · exact h.erase peerId
  · exact Inv.setState h trivial
  · exact h

theorem Inv.incomingChannel (h : st.Inv) (peerId : PeerId) (channel : Channel) :
    (st.incomingChannel peerId channel).Inv := by
  unfold AppState.incomingChannel
  split
  · next isNew kind =>
    split
    · refine h.addTask ?_
      unfold autoKind at kind
      split at kind
      · next state => exact (h.stateOf state).known (.inl rfl)
      · next birth state => exact (h.stateOf state).known (.inr ⟨birth, rfl⟩)
      · cases kind
    · exact h
  · exact Inv.setStateOrInsert h _ trivial

theorem Inv.exchange (h : st.Inv) (i : ℕ) (channel : Channel) (reply : Option (ConsentBlob F)) :
    (st.exchange i channel reply).Inv := by
  unfold AppState.exchange
  split
  · next task theirBlob found =>
    have dropped := h.dropTask i
    refine ⟨dropped.rows, dropped.tasks, fun msg hm => ?_, dropped.pendingFile⟩
    rcases List.mem_append.1 hm with old | new
    · exact h.completions msg old
    · rw [List.mem_singleton.1 new]
      exact h.tasks task (List.mem_of_getElem? found)
  · exact h.dropTask i

theorem Inv.connectionComplete (h : st.Inv) (i : ℕ) :
    (st.connectionComplete T solarMonth i).Inv := by
  unfold AppState.connectionComplete
  split
  · exact h
  · next msg found =>
    have known := h.completions msg (List.mem_of_getElem? found)
    have grown := h.grow (st.consents.grows_connect msg.peerId)
    have fits : (st.consents.connect msg.peerId).Fits msg.peerId
        (.connected msg.theirBlob : StargazerState F Channel) := .inr List.mem_cons_self
    have connected := Inv.setStateOrInsert grown
      (Stargazer.connected solarMonth msg.peerId msg.theirBlob) fits
    have saved := connected.savePending
    rw [completed, if_pos known]
    refine ⟨connected.rows, connected.tasks, fun m hm => ?_, ?_⟩
    · exact connected.completions m (List.mem_of_mem_eraseIdx hm)
    · cases msg.isNew
      · exact connected.pendingFile
      · exact saved.pendingFile

/-! ### Starting again -/

theorem mem_loadStargazers {peersTsv pendingTsv : String} {s : Stargazer F Channel}
    (h : s ∈ loadStargazers T solarMonth peersTsv pendingTsv) :
    (∃ birth, s.state = .connected birth ∧ (s.peerId, birth) ∈ peerEntries T peersTsv) ∨
    s.state = .outgoingPending ∧ s.peerId ∈ loadPending pendingTsv := by
  rcases Table.mem_foldl_insertOrIgnore h with old | ⟨peerId, hid, rfl⟩
  · rcases Table.mem_foldl_upsert old with none | ⟨entry, hentry, rfl⟩
    · exact absurd none (Table.not_mem_empty s)
    · exact .inl ⟨entry.2, rfl, hentry⟩
  · exact .inr ⟨rfl, hid⟩

theorem Inv.restart (h : st.Inv) (clean : st.Clean T .restart) :
    (st.restart T solarMonth).Inv := by
  refine ⟨fun s hs => ?_, by simp [AppState.restart], by simp [AppState.restart], h.pendingFile⟩
  rcases mem_loadStargazers hs with ⟨birth, state, entry⟩ | ⟨state, pending⟩
  · rw [state]
    rcases clean s.peerId (collect_isSome entry) with proposed | connected
    · exact .inl proposed
    · obtain ⟨blob, found⟩ := Option.isSome_iff_exists.1 connected
      obtain ⟨r, hr, id, hblob⟩ := connectedBlob?_eq_some.1 found
      have fits := h.rows r hr
      unfold Stargazer.connectedBlob at hblob
      cases was : r.state <;> simp_all [Consents.Fits, AppState.restart]
  · rw [state]
    exact h.pendingFile _ pending

/-! ## Runs -/

theorem Inv.step (h : st.Inv) {e : AppEvent F Channel} (clean : st.Clean T e) :
    (st.step T solarMonth e).Inv := by
  cases e with
  | confirmBirth birth => exact ⟨h.rows, h.tasks, h.completions, h.pendingFile⟩
  | networkStarted => exact ⟨h.rows, h.tasks, h.completions, h.pendingFile⟩
  | reconnect peerId => exact h.reconnect peerId
  | proposeConsent peerId => exact h.proposeConsent peerId
  | removeStargazer peerId => exact h.removeStargazer clean
  | acceptConsent shown order reply => exact h.acceptConsent clean
  | rejectConsent order => exact h.rejectConsent order
  | peerDiscovered peerId blob approx => exact h.peerDiscovered peerId blob approx
  | peerLeft peerId => exact h.peerLeft peerId
  | incomingChannel peerId channel => exact h.incomingChannel peerId channel
  | peerChannelClosed peerId => exact ⟨h.rows, h.tasks, h.completions, h.pendingFile⟩
  | exchange i channel reply => exact h.exchange i channel reply
  | connectFailed i => exact h.dropTask i
  | connectionComplete i => exact h.connectionComplete i
  | restart => exact h.restart clean

/-- The invariant grants what a step sends. -/
theorem Inv.gated (h : st.Inv) {e : AppEvent F Channel} (clean : st.Clean T e) : st.Gated e := by
  cases e with
  | acceptConsent shown order reply => exact gated_acceptConsent_iff.2 clean
  | exchange i channel reply =>
    intro peerId ourBlob sent
    obtain ⟨task, found, same⟩ := Option.map_eq_some_iff.1 sent
    obtain ⟨rfl, rfl⟩ := Prod.mk.inj same
    exact h.tasks task (List.mem_of_getElem? found)
  | _ => intro peerId ourBlob sent; cases sent

theorem inv_fresh (relayPk : Bytes32) : (fresh relayPk : AppState F Channel).Inv where
  rows s hs := absurd hs (Table.not_mem_empty s)
  tasks := by simp [fresh]
  completions := by simp [fresh]
  pendingFile _ hp := absurd hp List.not_mem_nil

end AppState

/-- In every run from a fresh installation whose steps are all clean, exact birth data is
sent to nobody but the peers the user agreed to exchange it with. -/
theorem consent_gated (T : FloatText F) (solarMonth : F → UInt8) (relayPk : Bytes32)
    (es : List (AppEvent F Channel))
    (run : Along (AppState.step T solarMonth) (fun st e => st.Enabled e ∧ st.Clean T e)
      (AppState.fresh relayPk) es) :
    Along (AppState.step T solarMonth) AppState.Gated (AppState.fresh relayPk) es := by
  have keep : ∀ (st : AppState F Channel) e, st.Inv → st.Enabled e ∧ st.Clean T e →
      (st.step T solarMonth e).Inv := fun _ _ h ok => h.step ok.2
  have grant : ∀ (st : AppState F Channel) e, st.Inv → st.Enabled e ∧ st.Clean T e → st.Gated e :=
    fun _ _ h ok => h.gated ok.2
  exact Along.of_invariant keep grant (AppState.inv_fresh relayPk) run

/-! ## Two requests -/

/-- The request of the peer with key `n, n, …`. -/
def requestOf (n : UInt8) : Stargazer ℕ Unit :=
  ⟨Vector.replicate 32 n, 0, "", [], .incomingPending ()⟩

/-- The blob of the peer with key `n, n, …`. -/
def blobOf (n : UInt8) : ConsentBlob ℕ :=
  ⟨⟨2451545, "gcpvj"⟩, Vector.replicate 32 0, Vector.replicate 32 0, Vector.replicate 32 n⟩

/-- The user sets up the application, and the peers 1 and 2 ask for an exchange. -/
def twoRequests : List (AppEvent ℕ Unit) :=
  [.confirmBirth ⟨2448000, "u4pru"⟩, .networkStarted,
    .incomingChannel (Vector.replicate 32 1) (), .incomingChannel (Vector.replicate 32 2) ()]

/-- Peer 1 is shown first and accepted. -/
theorem consent_gated_foremost :
    Along (AppState.step decimalText fun _ => 1) AppState.Gated
      (AppState.fresh (Vector.replicate 32 9))
      (twoRequests ++ [.acceptConsent (Vector.replicate 32 1) [requestOf 1, requestOf 2]
        (some (blobOf 1))]) := by
  refine consent_gated _ _ _ _ ⟨⟨trivial, trivial⟩, ⟨trivial, trivial⟩, ⟨trivial, trivial⟩,
    ⟨trivial, trivial⟩, ⟨?_, .inl ?_⟩, trivial⟩
  · exact List.Perm.refl _
  · exact foremost_of_consentBar rfl

/-- The user accepts the request of peer 1, and the birth data goes to peer 2, whose
request the map yields first. -/
theorem accept_sends_to_another :
    let es := twoRequests ++ [.acceptConsent (Vector.replicate 32 1) [requestOf 2, requestOf 1]
      (some (blobOf 2))]
    Along (AppState.step decimalText fun _ => 1) AppState.Enabled
        (AppState.fresh (Vector.replicate 32 9)) es ∧
      ¬ Along (AppState.step decimalText fun _ => 1) AppState.Gated
        (AppState.fresh (Vector.replicate 32 9)) es := by
  refine ⟨⟨trivial, trivial, trivial, trivial, List.Perm.swap _ _ _, trivial⟩, ?_⟩
  rintro ⟨-, -, -, -, gated, -⟩
  have same := gated (Vector.replicate 32 2) _ rfl
  exact absurd (congrArg (fun v => v[0]) same) (by decide)

end Zodia.App
