import Zodia.App.DocRuns
import Zodia.App.RegisterDocs
import Zodia.Config.LocalConfig

/-!
# Pages of readings

The page of a key (`app/src/aspect_view.rs`) is an editor whose buffer starts with the reading. One
slot of the program names the buffer that is refreshed when a message of the inbox changes the
document; it belongs to the page opened last, and a page that hides empties it, whoever's it is.
So a page that is pushed over another one is never refreshed: the one beneath hides after it was
built. Clicks go to the inbox too, so an own edit may be handled after edits of others that came
first.

Lists and cards show the reading through a function of their own, `resolveTopBody`.

## Main definitions

* `displayed`, `resolveTopBody` — the reading of a page, and that of lists and cards.
* `Editor`, `Editor.step` — the pages, the slot and the inbox.
* `Undisturbed` — steps that leave the text of a page to the program.
* `Unwritten` — steps that open no page and write nothing on this one.

## Main results

* `editor_page` — what pages and lists show, in every interleaving.
-/

namespace Zodia.App

open Lib Doc Store
open Config (trimmed)

variable {Blob C Digest : Type}

/-! ## Readings -/

section Readings

variable (L : Loro Blob C Digest) (baseline : String → Option String) (st : DocStore Blob Digest)
  (me : Bytes32) (key : String)

/-- The stored document, if it can be read. -/
def storedDoc : Option (InterpDoc C) := (st.docLoad key).bind (InterpDoc.fromSnapshot L me)

/-- The text and the revision that a page starts with. -/
def displayed : String × Option Digest :=
  match storedDoc L st me key with
  | some d => (d.bodyText L, some (d.currentRev L))
  | none => ((baseline key).getD "", none)

/-- The text in lists and on cards: an empty document counts as none. -/
def resolveTopBody : String :=
  match (storedDoc L st me key).map (·.bodyText L) with
  | some body => if body.isEmpty then (baseline key).getD "" else body
  | none => (baseline key).getD ""

end Readings

/-! ## Pages -/

/-- An open page: its buffer, whether a draft was generated since the last edit it sent, and the
revision that its ♡ names. -/
structure Page (Digest : Type) where
  key : String
  text : String
  aiGenerated : Bool
  rev : Option Digest

/-- What is seen of a page, and the revision behind its ♡. -/
def Page.reading (p : Page Digest) : String × String × Option Digest := (p.key, p.text, p.rev)

/-- What waits to be handled. -/
inductive DocMsg (Blob Digest : Type) where
  | publishDocEdit (interpKey newBody : String) (aiGenerated : Bool)
  | docEdited (op : DocEdited Blob)
  | docVetoProposed (op : DocVetoProposed Digest)
  | proposeDocVeto (interpKey : String) (targetEditOpId : Digest)

namespace DocMsg

def key : DocMsg Blob Digest → String
  | publishDocEdit interpKey _ _ => interpKey
  | docEdited op => op.interpKey
  | docVetoProposed op => op.interpKey
  | proposeDocVeto interpKey _ => interpKey

/-- What the handler does to the device, with the header and the clock it has then. -/
def event (header : Option OpHeader) (now : ℕ) : DocMsg Blob Digest → DocEvent Blob Digest
  | publishDocEdit interpKey newBody aiGenerated =>
    .publishDocEdit interpKey newBody aiGenerated header now
  | docEdited op => .docEdited op now
  | docVetoProposed op => .docVetoProposed op now
  | proposeDocVeto interpKey target => .proposeDocVeto interpKey target header now

/-- Whether the handler refreshes the page of the key: after every edit of others, after a veto
that is honoured, never after an own edit. -/
def refreshes [DecidableEq Digest] (L : Loro Blob C Digest) (st : DocStore Blob Digest)
    (me : Bytes32) (now : ℕ) : DocMsg Blob Digest → Bool
  | publishDocEdit _ _ _ => false
  | docEdited _ => true
  | docVetoProposed op =>
    (applyDocVeto L st op.targetEditOpId op.header.verifyingKey op.interpKey now).isSome
  | proposeDocVeto interpKey target => (applyDocVeto L st target me interpKey now).isSome

end DocMsg

/-- What a user, a draft that is ready, the network and the main loop do. Every opening has a number
of its own; a page hides when it is left and when another one is pushed over it. -/
inductive PageEvent (Blob Digest : Type) where
  | opened (page : ℕ) (interpKey : String)
  | hidden (page : ℕ)
  | typed (page : ℕ) (text : String)
  | generated (page : ℕ) (draft : String)
  | publishClicked (page : ℕ)
  | vetoClicked (interpKey : String) (targetEditOpId : Digest)
  | editReceived (op : DocEdited Blob)
  | vetoReceived (op : DocVetoProposed Digest)
  | handled (header : Option OpHeader) (now : ℕ)

/-- The device, its pages, the slot of the buffer to refresh and what is not handled yet. -/
structure Editor (Blob Digest : Type) where
  device : Device Blob Digest
  pages : ℕ → Option (Page Digest)
  active : Option (String × ℕ)
  inbox : List (DocMsg Blob Digest)

namespace Editor

def setPage (s : Editor Blob Digest) (page : ℕ) (p : Option (Page Digest)) : Editor Blob Digest :=
  { s with pages := fun i => if i = page then p else s.pages i }

/-- Change the buffer of a page; it outlives the page when a draft is on its way. -/
def modifyPage (s : Editor Blob Digest) (page : ℕ) (f : Page Digest → Page Digest) :
    Editor Blob Digest :=
  s.setPage page ((s.pages page).map f)

def send (s : Editor Blob Digest) (msg : DocMsg Blob Digest) : Editor Blob Digest :=
  { s with inbox := s.inbox ++ [msg] }

/-- Set the text of the buffer in the slot, if it is one of this key. -/
def refreshActiveDocBody (s : Editor Blob Digest) (interpKey newBody : String) :
    Editor Blob Digest :=
  match s.active with
  | some (key, page) =>
    if key = interpKey then s.modifyPage page fun p => { p with text := newBody } else s
  | none => s

/-- Load the document and refresh its page. -/
def pushDocBodyRefresh (L : Loro Blob C Digest) (me : Bytes32) (s : Editor Blob Digest)
    (interpKey : String) : Editor Blob Digest :=
  match storedDoc L s.device.store me interpKey with
  | some d => s.refreshActiveDocBody interpKey (d.bodyText L)
  | none => s

variable [DecidableEq C] [DecidableEq Digest] (L : Loro Blob C Digest) (ids : OpIds Blob Digest)
  (me : Bytes32) (baseline : String → Option String)

/-- The first message of the inbox is handled. -/
def handle (s : Editor Blob Digest) (header : Option OpHeader) (now : ℕ) : Editor Blob Digest :=
  match s.inbox with
  | [] => s
  | msg :: inbox =>
    let done := { s with device := s.device.step L ids me (msg.event header now), inbox := inbox }
    if msg.refreshes L s.device.store me now then done.pushDocBodyRefresh L me msg.key else done

/-- The click on "Publish edit". -/
def publish (s : Editor Blob Digest) (page : ℕ) : Editor Blob Digest :=
  match s.pages page with
  | none => s
  | some p =>
    let body := trimmed p.text
    if body.isEmpty then s
    else (s.send (.publishDocEdit p.key body p.aiGenerated)).setPage page
      (some { p with aiGenerated := false })

def step (s : Editor Blob Digest) : PageEvent Blob Digest → Editor Blob Digest
  | .opened page interpKey =>
    if (s.pages page).isSome then s
    else
      let reading := displayed L baseline s.device.store me interpKey
      { s.setPage page (some ⟨interpKey, reading.1, false, reading.2⟩) with
        active := some (interpKey, page) }
  -- the slot may be that of another page by now
  | .hidden _ => { s with active := none }
  | .typed page text => s.modifyPage page fun p => { p with text := text }
  | .generated page draft =>
    s.modifyPage page fun p => { p with text := trimmed draft, aiGenerated := true }
  | .publishClicked page => s.publish page
  | .vetoClicked interpKey target => s.send (.proposeDocVeto interpKey target)
  | .editReceived op => s.send (.docEdited op)
  | .vetoReceived op => s.send (.docVetoProposed op)
  | .handled header now => s.handle L ids me header now

/-- After the first start, with no page open. -/
def start (now : ℕ) (keys : List LegacyKey) : Editor Blob Digest :=
  ⟨Device.firstStart L ids me now keys, fun _ => none, none, []⟩

end Editor

/-! ## Stored documents -/

section Stored

variable [DecidableEq C] [DecidableEq Digest] {L : Loro Blob C Digest} {P : OpLog C → Prop}
  {ids : OpIds Blob Digest} {me : Bytes32} {st : DocStore Blob Digest} {key : String}
  {t : DocState C Digest}

omit [DecidableEq Digest] in
/-- The document that is read is the one that is represented. -/
theorem Represents.storedDoc (hL : L.Restores P) (me : Bytes32) (h : Represents L P st key t) :
    storedDoc L st me key = t.version.map fun v => ⟨v.current, peerIdFrom me⟩ := by
  rw [App.storedDoc, h.docLoad]
  cases hv : t.version with
  | none => rfl
  | some v => simp [InterpDoc.fromSnapshot, hL.restore _ (h.valid v hv).current]

omit [DecidableEq Digest] in
theorem Represents.isSome_storedDoc (hL : L.Restores P) (me : Bytes32)
    (h : Represents L P st key t) :
    (App.storedDoc L st me key).isSome = (st.docLoad key).isSome := by
  rw [h.storedDoc hL me, h.docLoad, Option.isSome_map, Option.isSome_map]

/-- A message does nothing to the document of another key. -/
theorem DocState.step_other {msg : DocMsg Blob Digest} (ne : msg.key ≠ key)
    (header : Option OpHeader) (now : ℕ) :
    t.step L ids me key (msg.event header now) = t := by
  cases msg <;> exact if_neg ne

/-- A document that is there stays. -/
theorem DocState.Effect.version {e : DocEvent Blob Digest} {t' : DocState C Digest}
    (h : Effect L ids me key t e t') (stored : t.version ≠ none) : t'.version ≠ none := by
  cases h with
  | nothing => exact stored
  | published => exact Option.some_ne_none _
  | edited op now current same imported =>
    rw [applyEdit_of_import imported]
    exact Option.some_ne_none _
  | rolledBack _ target revoker now _ honoured =>
    obtain ⟨v, last, prior, -, -, -, -, -, rfl⟩ := applyVeto_eq_some.1 honoured
    exact Option.some_ne_none _

end Stored

/-! ## What a step keeps -/

namespace Editor

theorem pages_modifyPage_of_ne {page page' : ℕ} (ne : page' ≠ page) (s : Editor Blob Digest)
    (f : Page Digest → Page Digest) : (s.modifyPage page' f).pages page = s.pages page :=
  if_neg ne.symm

theorem device_publish (s : Editor Blob Digest) (page : ℕ) :
    (s.publish page).device = s.device := by
  unfold publish
  cases s.pages page with
  | none => rfl
  | some p =>
    dsimp only
    split_ifs <;> rfl

theorem active_publish (s : Editor Blob Digest) (page : ℕ) :
    (s.publish page).active = s.active := by
  unfold publish
  cases s.pages page with
  | none => rfl
  | some p =>
    dsimp only
    split_ifs <;> rfl

/-- The click sends the text and leaves it on the page. -/
theorem reading_publish (s : Editor Blob Digest) (page' page : ℕ) :
    ((s.publish page').pages page).map Page.reading = (s.pages page).map Page.reading := by
  unfold publish
  cases there : s.pages page' with
  | none => rfl
  | some p =>
    dsimp only
    split_ifs
    · rfl
    · by_cases same : page = page'
      · subst same
        simp [setPage, Page.reading, there]
      · exact congrArg (Option.map _) (if_neg same)

/-- What the page in the slot shows after a refresh, and the other pages. -/
def Page.refreshed (L : Loro Blob C Digest) (me : Bytes32) (st : DocStore Blob Digest)
    (active : Option (String × ℕ)) (key : String) (page : ℕ) (p : Page Digest) : Page Digest :=
  if active = some (key, page) then
    { p with text := ((storedDoc L st me key).map (·.bodyText L)).getD p.text }
  else p

theorem frame_pushDocBodyRefresh (L : Loro Blob C Digest) (me : Bytes32) (s : Editor Blob Digest)
    (key : String) :
    (s.pushDocBodyRefresh L me key).device = s.device ∧
      (s.pushDocBodyRefresh L me key).inbox = s.inbox ∧
      (s.pushDocBodyRefresh L me key).active = s.active := by
  unfold pushDocBodyRefresh refreshActiveDocBody
  split
  · split
    · split_ifs <;> exact ⟨rfl, rfl, rfl⟩
    · exact ⟨rfl, rfl, rfl⟩
  · exact ⟨rfl, rfl, rfl⟩

theorem pages_pushDocBodyRefresh (L : Loro Blob C Digest) (me : Bytes32) (s : Editor Blob Digest)
    (key : String) (page : ℕ) :
    (s.pushDocBodyRefresh L me key).pages page =
      (s.pages page).map (Page.refreshed L me s.device.store s.active key page) := by
  unfold pushDocBodyRefresh refreshActiveDocBody Page.refreshed
  cases stored : storedDoc L s.device.store me key with
  | none => simp
  | some d =>
    cases active : s.active with
    | none => simp
    | some slot =>
      obtain ⟨k, i⟩ := slot
      by_cases same : k = key
      · subst same
        by_cases here : page = i
        · subst here
          simp [modifyPage, setPage]
        · simp [modifyPage, setPage, here, Ne.symm here]
      · simp [same]

variable [DecidableEq C] [DecidableEq Digest] {L : Loro Blob C Digest} {P : OpLog C → Prop}
  {ids : OpIds Blob Digest} {me : Bytes32} {baseline : String → Option String}
  {s : Editor Blob Digest}

/-- What handling a message does. -/
structure Handled (L : Loro Blob C Digest) (ids : OpIds Blob Digest) (me : Bytes32)
    (s : Editor Blob Digest) (msg : DocMsg Blob Digest) (inbox : List (DocMsg Blob Digest))
    (header : Option OpHeader) (now : ℕ) (t : Editor Blob Digest) : Prop where
  device : t.device = s.device.step L ids me (msg.event header now)
  inbox : t.inbox = inbox
  active : t.active = s.active
  pages : ∀ page, t.pages page = (s.pages page).map fun p =>
    if msg.refreshes L s.device.store me now then
      Page.refreshed L me t.device.store s.active msg.key page p
    else p

variable (L ids me) in
theorem handled_handle {msg : DocMsg Blob Digest} {inbox : List (DocMsg Blob Digest)}
    (waiting : s.inbox = msg :: inbox) (header : Option OpHeader) (now : ℕ) :
    Handled L ids me s msg inbox header now (s.handle L ids me header now) := by
  unfold handle
  rw [waiting]
  dsimp only
  split_ifs with refreshes
  · obtain ⟨device, inbox, active⟩ := frame_pushDocBodyRefresh L me
      { s with device := s.device.step L ids me (msg.event header now), inbox := inbox } msg.key
    refine ⟨device, inbox, active, fun page => ?_⟩
    rw [device, pages_pushDocBodyRefresh]
    simp [refreshes]
  · exact ⟨rfl, rfl, rfl, fun page => by simp [refreshes]⟩

/-! ## What every run keeps -/

/-- An own edit that waits has a text without blanks around it. -/
def Trimmed : DocMsg Blob Digest → Prop
  | .publishDocEdit _ body _ => body ≠ "" ∧ trimmed body = body
  | _ => True

/-- Every document of the device has a state, and what waits to be published has a text. -/
structure Sound (L : Loro Blob C Digest) (P : OpLog C → Prop) (s : Editor Blob Digest) : Prop where
  represents : ∀ key, ∃ t : DocState C Digest, Represents L P s.device.store key t
  inbox : ∀ msg ∈ s.inbox, Trimmed msg

omit [DecidableEq C] [DecidableEq Digest] in
theorem Sound.send (h : s.Sound L P) {msg : DocMsg Blob Digest} (trimmed : Trimmed msg) :
    (s.send msg).Sound L P where
  represents := h.represents
  inbox m mem := by
    rcases List.mem_append.1 mem with mem | mem
    · exact h.inbox m mem
    · exact List.mem_singleton.1 mem ▸ trimmed

omit [DecidableEq C] [DecidableEq Digest] in
theorem Sound.setPage (h : s.Sound L P) (page : ℕ) (p : Option (Page Digest)) :
    (s.setPage page p).Sound L P := ⟨h.represents, h.inbox⟩

theorem Sound.step (hL : L.Restores P) (h : s.Sound L P) (e : PageEvent Blob Digest) :
    (s.step L ids me baseline e).Sound L P := by
  cases e with
  | opened page interpKey =>
    unfold Editor.step
    dsimp only
    split_ifs
    · exact h
    · exact ⟨h.represents, h.inbox⟩
  | hidden => exact ⟨h.represents, h.inbox⟩
  | typed page text => exact h.setPage page _
  | generated page draft => exact h.setPage page _
  | publishClicked page =>
    change (s.publish page).Sound L P
    unfold publish
    cases s.pages page with
    | none => exact h
    | some p =>
      dsimp only
      split_ifs with blank
      · exact h
      · have body : trimmed p.text ≠ "" := fun none => blank (by rw [none]; rfl)
        have msg : Trimmed
            (.publishDocEdit p.key (trimmed p.text) p.aiGenerated : DocMsg Blob Digest) :=
          ⟨body, by simp [trimmed, trim_trim]⟩
        exact (h.send msg).setPage page _
  | vetoClicked interpKey target => exact h.send trivial
  | editReceived op => exact h.send trivial
  | vetoReceived op => exact h.send trivial
  | handled header now =>
    change (s.handle L ids me header now).Sound L P
    cases waiting : s.inbox with
    | nil =>
      rw [handle, waiting]
      exact h
    | cons msg inbox =>
      obtain ⟨device, rest, -, -⟩ := handled_handle L ids me waiting header now
      refine ⟨fun key => ?_, fun m mem => ?_⟩
      · obtain ⟨t, holds⟩ := h.represents key
        rw [device]
        exact ⟨_, holds.step hL ids me _⟩
      · rw [rest] at mem
        exact h.inbox m (waiting ▸ List.mem_cons_of_mem _ mem)

omit [DecidableEq Digest] in
theorem Sound.start (hL : L.Restores P) (ids : OpIds Blob Digest) (me : Bytes32) (now : ℕ)
    (keys : List LegacyKey) : (Editor.start L ids me now keys).Sound L P where
  represents key :=
    let ⟨t, represents, _⟩ := Represents.firstStart hL ids me now keys key
    ⟨t, represents⟩
  inbox _ none := absurd none List.not_mem_nil

/-! ## What is shown -/

/-- The page of `key` is in the slot and shows the reading, under the revision it was opened
with. -/
structure Shows (L : Loro Blob C Digest) (baseline : String → Option String) (me : Bytes32)
    (page : ℕ) (key : String) (rev : Option Digest) (s : Editor Blob Digest) : Prop where
  active : s.active = some (key, page)
  shown : (s.pages page).map Page.reading =
    some (key, (displayed L baseline s.device.store me key).1, rev)

/-- The slot is empty, and the page shows what was `seen`. -/
structure Stays (page : ℕ) (seen : Option (String × String × Option Digest))
    (s : Editor Blob Digest) : Prop where
  active : s.active = none
  shown : (s.pages page).map Page.reading = seen

/-- A step that leaves the text of a page to the program: no page is opened or hides, nobody writes
on this one, and no own edit of its key is handled. -/
def Undisturbed (page : ℕ) (key : String) (s : Editor Blob Digest) : PageEvent Blob Digest → Prop
  | .opened _ _ | .hidden _ => False
  | .typed page' _ | .generated page' _ => page' ≠ page
  | .handled _ _ => ∀ body ai, s.inbox.head? ≠ some (.publishDocEdit key body ai)
  | _ => True

/-- A step that opens no page and writes nothing on this one. -/
def Unwritten (page : ℕ) : PageEvent Blob Digest → Prop
  | .opened _ _ => False
  | .typed page' _ | .generated page' _ => page' ≠ page
  | _ => True

/-- A message that refreshes no page leaves the store as it is, unless it is an own edit. -/
theorem store_step_of_not_refreshes {d : Device Blob Digest} {msg : DocMsg Blob Digest}
    (other : ∀ key body ai, msg ≠ .publishDocEdit key body ai) {header : Option OpHeader} {now : ℕ}
    (quiet : msg.refreshes L d.store me now = false) :
    (d.step L ids me (msg.event header now)).store = d.store := by
  cases msg with
  | publishDocEdit key body ai => exact absurd rfl (other key body ai)
  | docEdited op => cases quiet
  | docVetoProposed op =>
    have refused := Option.isSome_eq_false_iff.1 quiet
    exact congrArg (Option.getD · d.store) (Option.isNone_iff_eq_none.1 refused)
  | proposeDocVeto key target =>
    have refused := Option.isSome_eq_false_iff.1 quiet
    exact congrArg (Option.getD · d.store) (Option.isNone_iff_eq_none.1 refused)

variable (ids me) in
/-- A message changes the reading of its own key only, and a document that is there stays. -/
theorem storedDoc_step (hL : L.Restores P) (sound : s.Sound L P) (msg : DocMsg Blob Digest)
    (header : Option OpHeader) (now : ℕ) (key : String) :
    let st := (s.device.step L ids me (msg.event header now)).store
    (msg.key ≠ key → storedDoc L st me key = storedDoc L s.device.store me key) ∧
      (storedDoc L st me key = none → storedDoc L s.device.store me key = none) := by
  obtain ⟨t, holds⟩ := sound.represents key
  have after := (holds.step hL ids me (msg.event header now)).storedDoc hL me
  intro st
  rw [holds.storedDoc hL me, after]
  refine ⟨fun ne => by rw [DocState.step_other ne], fun none => ?_⟩
  rw [Option.map_eq_none_iff] at none ⊢
  by_contra stored
  exact (DocState.effect_step L ids me key t _).version stored none

omit [DecidableEq C] [DecidableEq Digest] in
theorem displayed_congr {st st' : DocStore Blob Digest} {key : String}
    (same : storedDoc L st' me key = storedDoc L st me key) :
    displayed L baseline st' me key = displayed L baseline st me key := by
  rw [displayed, same, displayed]

omit [DecidableEq C] [DecidableEq Digest] in
/-- A refresh shows the reading, if the page showed that of a store with no document more. -/
theorem reading_refreshed {st st' : DocStore Blob Digest} {key : String} {rev : Option Digest}
    {p : Page Digest} (page : ℕ)
    (shown : p.reading = (key, (displayed L baseline st me key).1, rev))
    (stays : storedDoc L st' me key = none → storedDoc L st me key = none) :
    (Page.refreshed L me st' (some (key, page)) key page p).reading =
      (key, (displayed L baseline st' me key).1, rev) := by
  rw [Page.refreshed, if_pos rfl]
  cases stored : storedDoc L st' me key with
  | none =>
    rw [displayed_congr (stored.trans (stays stored).symm), ← shown]
    rfl
  | some d =>
    obtain ⟨own, -, names⟩ : p.key = key ∧ p.text = _ ∧ p.rev = rev := by
      simpa [Page.reading] using shown
    rw [displayed, stored, Page.reading, own, names]
    rfl

/-- A page that shows the reading still does after a message, but for an own edit. -/
theorem Shows.handle (hL : L.Restores P) (sound : s.Sound L P) {page : ℕ} {key : String}
    {rev : Option Digest} (h : Shows L baseline me page key rev s) (header : Option OpHeader)
    (now : ℕ) (undisturbed : ∀ body ai, s.inbox.head? ≠ some (.publishDocEdit key body ai)) :
    Shows L baseline me page key rev (s.handle L ids me header now) := by
  cases waiting : s.inbox with
  | nil =>
    rw [Editor.handle, waiting]
    exact h
  | cons msg inbox =>
    obtain ⟨device, -, slot, pages⟩ := handled_handle L ids me waiting header now
    obtain ⟨frame, stays⟩ := storedDoc_step ids me hL sound msg header now key
    obtain ⟨p, here, shown⟩ := Option.map_eq_some_iff.1 h.shown
    refine ⟨slot.trans h.active, ?_⟩
    rw [pages page, here, device, h.active]
    refine congrArg some ?_
    dsimp only
    by_cases mine : msg.key = key
    · by_cases refreshes : msg.refreshes L s.device.store me now = true
      · rw [if_pos refreshes, mine]
        exact reading_refreshed page shown stays
      · have other : ∀ key' body ai, msg ≠ .publishDocEdit key' body ai := by
          rintro key' body ai rfl
          obtain rfl : key' = key := mine
          exact undisturbed body ai (by rw [waiting]; rfl)
        rw [if_neg refreshes,
          store_step_of_not_refreshes other (Bool.eq_false_iff.2 refreshes)]
        exact shown
    · have elsewhere : some (key, page) ≠ some (msg.key, page) := fun same =>
        mine (Prod.mk.inj (Option.some.inj same)).1.symm
      rw [Page.refreshed, if_neg elsewhere, ite_self, displayed_congr (frame mine)]
      exact shown

theorem Shows.step (hL : L.Restores P) (sound : s.Sound L P) {page : ℕ} {key : String}
    {rev : Option Digest} (h : Shows L baseline me page key rev s) {e : PageEvent Blob Digest}
    (undisturbed : Undisturbed page key s e) :
    Shows L baseline me page key rev (s.step L ids me baseline e) := by
  have elsewhere {page' : ℕ} (ne : page' ≠ page) (f : Page Digest → Page Digest) :
      Shows L baseline me page key rev (s.modifyPage page' f) :=
    ⟨h.active, by rw [pages_modifyPage_of_ne ne]; exact h.shown⟩
  cases e with
  | opened => exact undisturbed.elim
  | hidden => exact undisturbed.elim
  | typed page' _ => exact elsewhere undisturbed _
  | generated page' _ => exact elsewhere undisturbed _
  | publishClicked page' =>
    have device : (s.publish page').device = s.device := device_publish s page'
    refine ⟨(active_publish s page').trans h.active, (reading_publish s page' page).trans ?_⟩
    change _ = some (key, (displayed L baseline (s.publish page').device.store me key).1, rev)
    rw [device]
    exact h.shown
  | vetoClicked => exact ⟨h.active, h.shown⟩
  | editReceived => exact ⟨h.active, h.shown⟩
  | vetoReceived => exact ⟨h.active, h.shown⟩
  | handled header now => exact h.handle hL sound header now undisturbed

theorem Shows.run (hL : L.Restores P) (sound : s.Sound L P) {page : ℕ} {key : String}
    {rev : Option Digest} (h : Shows L baseline me page key rev s)
    {after : List (PageEvent Blob Digest)}
    (undisturbed : Along (Editor.step L ids me baseline) (Undisturbed page key) s after) :
    Shows L baseline me page key rev (exec (Editor.step L ids me baseline) s after) := by
  induction after generalizing s with
  | nil => exact h
  | cons e after ih =>
    exact ih (sound.step hL e) (h.step hL sound undisturbed.1) undisturbed.2

/-- A page that is opened shows the reading, and a run that leaves it to the program keeps that. -/
theorem Shows.opened (hL : L.Restores P) (sound : s.Sound L P) {page : ℕ} {key : String}
    (free : s.pages page = none) {after : List (PageEvent Blob Digest)}
    (undisturbed : Along (Editor.step L ids me baseline) (Undisturbed page key)
      (s.step L ids me baseline (.opened page key)) after) :
    Shows L baseline me page key (displayed L baseline s.device.store me key).2
      (exec (Editor.step L ids me baseline) (s.step L ids me baseline (.opened page key))
        after) := by
  have shown : Shows L baseline me page key (displayed L baseline s.device.store me key).2
      (s.step L ids me baseline (.opened page key)) := by
    have opened : ¬(s.pages page).isSome = true := by simp [free]
    rw [Editor.step, if_neg opened]
    exact ⟨rfl, by simp [setPage, Page.reading]⟩
  exact shown.run hL (sound.step hL (.opened page key)) undisturbed

theorem Stays.step {page : ℕ} {seen : Option (String × String × Option Digest)}
    (h : Stays page seen s) {e : PageEvent Blob Digest} (unwritten : Unwritten page e) :
    Stays page seen (s.step L ids me baseline e) := by
  have elsewhere {page' : ℕ} (ne : page' ≠ page) (f : Page Digest → Page Digest) :
      Stays page seen (s.modifyPage page' f) :=
    ⟨h.active, by rw [pages_modifyPage_of_ne ne]; exact h.shown⟩
  cases e with
  | opened => exact unwritten.elim
  | hidden => exact ⟨rfl, h.shown⟩
  | typed page' _ => exact elsewhere unwritten _
  | generated page' _ => exact elsewhere unwritten _
  | publishClicked page' =>
    exact ⟨(active_publish s page').trans h.active, (reading_publish s page' page).trans h.shown⟩
  | vetoClicked => exact ⟨h.active, h.shown⟩
  | editReceived => exact ⟨h.active, h.shown⟩
  | vetoReceived => exact ⟨h.active, h.shown⟩
  | handled header now =>
    change Stays page seen (s.handle L ids me header now)
    cases waiting : s.inbox with
    | nil =>
      rw [handle, waiting]
      exact h
    | cons msg inbox =>
      obtain ⟨-, -, slot, pages⟩ := handled_handle L ids me waiting header now
      refine ⟨slot.trans h.active, ?_⟩
      -- with an empty slot a refresh finds no page
      rw [pages page, h.active, ← h.shown]
      simp [Page.refreshed]

/-- After a page hides, the pages stay as they are until one is opened or written on. -/
theorem Stays.hidden (other page : ℕ) {after : List (PageEvent Blob Digest)}
    (unwritten : ∀ e ∈ after, Unwritten page e) :
    Stays page ((s.pages page).map Page.reading)
      (exec (Editor.step L ids me baseline) (s.step L ids me baseline (.hidden other)) after) :=
  exec_invariant (fun _ _ stays ok => stays.step ok) ⟨rfl, rfl⟩ (Along.of_forall unwritten _)

end Editor

/-! ## Own edits -/

/-- Replacing the body of a document gives the new text. -/
def SetsBody [DecidableEq C] (L : Loro Blob C Digest) (Valid : OpLog C → Prop) : Prop :=
  ∀ d peer new, Valid d → L.bodyText (commit d peer (L.replaceBody d new)) = new

section Own

variable [DecidableEq C] [DecidableEq Digest] {L : Loro Blob C Digest} {P : OpLog C → Prop}
  {ids : OpIds Blob Digest} {me : Bytes32} {baseline : String → Option String}
  {s : Editor Blob Digest}

/-- After an own edit its text is the reading, of pages and of lists. -/
theorem reading_publishDocEdit (hL : L.Restores P) (sets : SetsBody L P) (sound : s.Sound L P)
    {key body : String} {ai : Bool} {inbox : List (DocMsg Blob Digest)}
    (waiting : s.inbox = .publishDocEdit key body ai :: inbox) (header : Option OpHeader)
    (now : ℕ) :
    let t := s.handle L ids me header now
    (displayed L baseline t.device.store me key).1 = body ∧
      resolveTopBody L baseline t.device.store me key = body := by
  intro t
  obtain ⟨state, holds⟩ := sound.represents key
  have after := (holds.publishDocEdit hL ids me body now).storedDoc hL me
  have device := (Editor.handled_handle L ids me waiting header now).device
  have stored : storedDoc L t.device.store me key =
      some ⟨state.committed L me body, peerIdFrom me⟩ := by
    rw [device]
    exact after
  have text : L.bodyText (state.committed L me body) = body :=
    sets _ _ _ (holds.opened_valid hL)
  obtain ⟨named, -⟩ : Editor.Trimmed (.publishDocEdit key body ai : DocMsg Blob Digest) :=
    sound.inbox _ (waiting ▸ List.mem_cons_self)
  have some_text : body.isEmpty = false := by simpa using named
  rw [displayed, resolveTopBody, stored]
  refine ⟨text, ?_⟩
  simp only [Option.map_some, InterpDoc.bodyText, text, some_text]
  rfl

omit [DecidableEq C] [DecidableEq Digest] in
/-- Pages and lists differ on a document that is empty, if there is a bundled text. -/
theorem resolveTopBody_ne_iff {st : DocStore Blob Digest} {key : String} :
    resolveTopBody L baseline st me key ≠ (displayed L baseline st me key).1 ↔
      (storedDoc L st me key).isSome ∧ (displayed L baseline st me key).1 = "" ∧
        (baseline key).getD "" ≠ "" := by
  unfold resolveTopBody displayed
  cases storedDoc L st me key with
  | none => simp
  | some d =>
    by_cases blank : d.bodyText L = ""
    · simp [blank]
    · simp [blank]

end Own

/-! ## The editor -/

/-- What pages and lists show in a state of a run. -/
structure EditorTells [DecidableEq C] [DecidableEq Digest] (L : Loro Blob C Digest)
    (ids : OpIds Blob Digest) (me : Bytes32) (baseline : String → Option String)
    (s : Editor Blob Digest) : Prop where
  /-- A page that is left to the program shows the reading; its ♡ stays with the revision of its
  opening. -/
  opened : ∀ page key after, s.pages page = none →
    let start := s.step L ids me baseline (.opened page key)
    Along (Editor.step L ids me baseline) (Editor.Undisturbed page key) start after →
      Editor.Shows L baseline me page key (displayed L baseline s.device.store me key).2
        (exec (Editor.step L ids me baseline) start after)
  /-- Once a page hides, no page is refreshed until another one is opened, not even one that was
  pushed over it. -/
  hidden : ∀ other page after, (∀ e ∈ after, Editor.Unwritten page e) →
    ((exec (Editor.step L ids me baseline) (s.step L ids me baseline (.hidden other))
      after).pages page).map Page.reading = (s.pages page).map Page.reading
  /-- An edit of somebody else takes the place of a draft, even one that cannot be applied. -/
  draft : ∀ page p op inbox header now, s.pages page = some p → s.active = some (p.key, page) →
    s.inbox = .docEdited op :: inbox → op.interpKey = p.key →
      let t := s.step L ids me baseline (.handled header now)
      t.pages page = some { p with
        text := ((storedDoc L t.device.store me p.key).map (·.bodyText L)).getD p.text }
  /-- What is published has a text, and is the reading then. -/
  published : ∀ key body ai inbox header now, s.inbox = .publishDocEdit key body ai :: inbox →
    let t := s.step L ids me baseline (.handled header now)
    body ≠ "" ∧ trimmed body = body ∧ (displayed L baseline t.device.store me key).1 = body ∧
      resolveTopBody L baseline t.device.store me key = body
  lists : ∀ key, resolveTopBody L baseline s.device.store me key ≠
      (displayed L baseline s.device.store me key).1 ↔
    (s.device.store.docLoad key).isSome ∧ (displayed L baseline s.device.store me key).1 = "" ∧
      (baseline key).getD "" ≠ ""

/-- **Pages and lists, in every interleaving.** -/
theorem editor_page [DecidableEq C] [DecidableEq Digest] {L : Loro Blob C Digest}
    {P : OpLog C → Prop} (hL : L.Restores P) (sets : SetsBody L P) (ids : OpIds Blob Digest)
    (me : Bytes32) (baseline : String → Option String) (now : ℕ) (keys : List LegacyKey)
    (before : List (PageEvent Blob Digest)) :
    EditorTells L ids me baseline
      (exec (Editor.step L ids me baseline) (Editor.start L ids me now keys) before) := by
  have sound : (exec (Editor.step L ids me baseline) (Editor.start L ids me now keys)
      before).Sound L P :=
    exec_keeps (fun s : Editor Blob Digest => s.Sound L P) (fun s e h => h.step hL e)
      (.start hL ids me now keys) before
  refine ⟨fun page key after free undisturbed => .opened hL sound free undisturbed,
    fun other page after unwritten => (Editor.Stays.hidden other page unwritten).shown, ?_, ?_, ?_⟩
  · intro page p op inbox header now here active waiting same t
    have handled := Editor.handled_handle L ids me waiting header now
    refine (handled.pages page).trans ?_
    have refreshed : Editor.Page.refreshed L me t.device.store (some (p.key, page)) op.interpKey
        page p = { p with
          text := ((storedDoc L t.device.store me p.key).map (·.bodyText L)).getD p.text } := by
      rw [Editor.Page.refreshed, same, if_pos rfl]
    rw [here, active]
    exact congrArg some refreshed
  · intro key body ai inbox header now waiting
    obtain ⟨named, short⟩ : Editor.Trimmed (.publishDocEdit key body ai : DocMsg Blob Digest) :=
      sound.inbox _ (waiting ▸ List.mem_cons_self)
    exact ⟨named, short, reading_publishDocEdit hL sets sound waiting header now⟩
  · intro key
    obtain ⟨state, holds⟩ := sound.represents key
    rw [← holds.isSome_storedDoc hL me]
    exact resolveTopBody_ne_iff

/-! ### An edit of one's own over one of somebody else -/

/-- A register that numbers its operations past all it knows, by repeating the text. -/
def paddedRegister : Loro (OpLog String) String RegisterDigest :=
  { registerUnion with
    deleteText := fun d _ _ => List.replicate ((d.sup fun op => op.id.counter + 1) + 1) ""
    insertText := fun d _ new => List.replicate ((d.sup fun op => op.id.counter + 1) + 1) new }

theorem paddedRegister_restores : paddedRegister.Restores fun _ => True :=
  Loro.SetUnion.restores ⟨fun _ => rfl, fun _ => rfl, fun _ _ => rfl⟩

/-- The last of enough operations has the greatest number. -/
theorem registerText_commit {d : OpLog String} {peer : UInt64} {contents : List String}
    {last : String} (ends : contents.getLast? = some last)
    (many : (d.sup fun op => op.id.counter + 1) < contents.length) :
    registerText (commit d peer contents) = last := by
  have older {op : CrdtOp String} (mem : op ∈ d) : op.id.counter + 1 < contents.length :=
    (Finset.le_sup (f := fun op : CrdtOp String => op.id.counter + 1) mem).trans_lt many
  rw [List.getLast?_eq_getElem?] at ends
  generalize place : contents.length - 1 = n at ends
  have newest : (⟨⟨peer, nextCounter d peer + n⟩, last⟩ : CrdtOp String) ∈ commit d peer contents :=
    mem_commit.2 (.inr (mem_localOps.2 ⟨n, ends, rfl⟩))
  have greatest : registerTop (commit d peer contents) =
      ↑(toLex (nextCounter d peer + n, toLex (peer.toNat, last))) := by
    refine le_antisymm (Finset.sup_le fun op mem => ?_) (Finset.le_sup_of_le newest le_rfl)
    rw [WithBot.coe_le_coe, Prod.Lex.toLex_le_toLex]
    rcases mem_commit.1 mem with old | own
    · have := older old
      exact .inl (by dsimp only; omega)
    · obtain ⟨i, content, id⟩ := mem_localOps.1 own
      have within : i < contents.length := (List.getElem?_eq_some_iff.1 content).1
      rcases Nat.lt_or_ge i n with less | ge
      · exact .inl (by rw [id]; dsimp only; omega)
      · obtain rfl : i = n := by omega
        have same : op.content = last := Option.some.inj (content.symm.trans ends)
        exact .inr (by rw [id, same]; exact ⟨rfl, le_rfl⟩)
  rw [registerText, greatest]
  rfl

theorem paddedRegister_setsBody : SetsBody paddedRegister fun _ => True := by
  intro d peer new _
  rw [Loro.replaceBody]
  by_cases blank : new = ""
  · subst blank
    by_cases empty : (paddedRegister.bodyText d).length = 0
    · -- nothing to delete, nothing to insert
      have none : paddedRegister.bodyText d = "" := String.length_eq_zero_iff.1 empty
      simpa [empty, commit, localOps] using none
    · have some_text : 0 < (paddedRegister.bodyText d).length := Nat.pos_of_ne_zero empty
      simp only [some_text, if_true]
      refine registerText_commit ?_ (by simp [paddedRegister])
      simp [paddedRegister, List.getLast?_replicate]
  · have named : new.isEmpty = false := by simpa using blank
    simp only [named, Bool.false_eq_true, if_false]
    refine registerText_commit ?_ ?_
    · simp [paddedRegister, List.getLast?_replicate]
    · rw [List.length_append, paddedRegister, List.length_replicate]
      omega

/-- With the page of a reading open, an edit of somebody else arrives and is handled. -/
theorem editor_page_refreshed :
    EditorTells paddedRegister registerIds (keyOf 7) (fun _ => none)
      (exec (Editor.step paddedRegister registerIds (keyOf 7) fun _ => none)
        (Editor.start paddedRegister registerIds (keyOf 7) 0 [])
        [.opened 0 "sun.leo", .typed 0 " mine ", .publishClicked 0, .editReceived (editOf 8 "b" 1),
          .handled none 2, .handled none 3]) :=
  editor_page paddedRegister_restores paddedRegister_setsBody registerIds (keyOf 7) (fun _ => none)
    0 [] _

end Zodia.App
