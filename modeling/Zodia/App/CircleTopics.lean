import Zodia.App.PeersFile
import Zodia.Sync.LogSeparation

/-!
# Circle topics and circle membership

The circles the user created or joined are kept in a map, under the hexadecimal text of their
id, and written to `circles.tsv` after each change. The topics of the circles are open in the
sync node only while it lives, and each handler of the application touches a different part of
the two: creating opens and records, joining opens and asks for a name, naming records, leaving
opens and removes, and a start opens none.

## Main definitions

* `CircleApp`, `CircleApp.step` — the circles, their file, the node and the naming dialogs.
* `Follows` — the open circle topics are those of the recorded circles.
* `CircleApp.Tracks` — the steps that keep the two together.
-/

namespace Zodia.App

open Lib Sync

variable {Digest Args : Type}

/-! ## The file -/

/-- A circle of the map: its id in hexadecimal and its local name. -/
structure CircleName where
  idHex : String
  name : String
  deriving DecidableEq

abbrev CircleMap := Table CircleName.idHex

/-- `hex::encode` of a circle id. -/
def circleIdHex (circleId : Bytes32) : String := String.ofList (hexEncode circleId.toList)

def decodeCircleId (idHex : String) : Option Bytes32 := parsePeerId idHex.toList

def circleLine (c : CircleName) : List Char := c.idHex.toList ++ '\t' :: c.name.toList

/-- The text `save_circles` writes. -/
def saveCircles (circles : CircleMap) : String :=
  String.ofList ((circles.rows.map circleLine).flatMap fun line => line ++ ['\n'])

/-- The lines with an id and a name; other lines are skipped. -/
def circleEntries (content : String) : List CircleName :=
  (lines content.toList).filterMap fun line =>
    (splitOnce '\t' line).map fun parts => ⟨String.ofList parts.1, String.ofList parts.2⟩

def loadCircles (content : String) : CircleMap :=
  (circleEntries content).foldl (fun circles c => circles.upsert c) Table.empty

/-- The circle has a line in the file. -/
def Recorded (content : String) (circleId : Bytes32) : Prop :=
  ∃ c ∈ circleEntries content, decodeCircleId c.idHex = some circleId

/-- The circle has an entry in the map. -/
def Knows (circles : CircleMap) (circleId : Bytes32) : Prop :=
  ∃ c ∈ circles, decodeCircleId c.idHex = some circleId

/-- The entry stays on its line, and its id ends at the tab. -/
structure CircleName.OneLine (c : CircleName) : Prop where
  tab : '\t' ∉ c.idHex.toList
  newline : '\n' ∉ c.idHex.toList
  name : '\n' ∉ c.name.toList

@[simp] theorem decodeCircleId_circleIdHex (circleId : Bytes32) :
    decodeCircleId (circleIdHex circleId) = some circleId := by
  simp [decodeCircleId, circleIdHex, parsePeerId_hexEncode]

theorem circleIdHex_injective {a b : Bytes32} (h : circleIdHex a = circleIdHex b) : a = b := by
  have decoded := congrArg decodeCircleId h
  simpa using decoded

theorem oneLine_circleIdHex {circleId : Bytes32} {name : String} (h : '\n' ∉ name.toList) :
    (⟨circleIdHex circleId, name⟩ : CircleName).OneLine := by
  obtain ⟨tab, newline⟩ := not_mem_hexEncode circleId.toList
  exact ⟨by simpa [circleIdHex] using tab, by simpa [circleIdHex] using newline, h⟩

/-- A saved map has an entry for each of its circles, under the same id. -/
theorem circleEntries_saveCircles {circles : CircleMap} (h : ∀ c ∈ circles, c.OneLine) :
    circleEntries (saveCircles circles) = circles.rows.map fun c =>
      ⟨c.idHex, String.ofList (stripCr c.name.toList)⟩ := by
  have newline : ∀ line ∈ circles.rows.map circleLine, '\n' ∉ line := by
    intro line hline
    obtain ⟨c, hc, rfl⟩ := List.mem_map.1 hline
    have one := h c hc
    simp [circleLine, one.newline, one.name]
  rw [circleEntries, saveCircles, String.toList_ofList, lines_flatMap newline, List.map_map,
    List.filterMap_map, ← List.filterMap_eq_map]
  refine List.filterMap_congr fun c hc => ?_
  have strip : stripCr (circleLine c) = c.idHex.toList ++ '\t' :: stripCr c.name.toList :=
    stripCr_append _ (by decide) _
  simp [strip, splitOnce_append (h c hc).tab]

theorem recorded_saveCircles {circles : CircleMap} (h : ∀ c ∈ circles, c.OneLine)
    (circleId : Bytes32) : Recorded (saveCircles circles) circleId ↔ Knows circles circleId := by
  rw [Recorded, circleEntries_saveCircles h]
  simp [Knows]

/-- An entry that was read back lies on one line. -/
theorem oneLine_of_mem_circleEntries {content : String} {c : CircleName}
    (h : c ∈ circleEntries content) : c.OneLine := by
  obtain ⟨line, hline, parts⟩ := List.mem_filterMap.1 h
  obtain ⟨⟨a, b⟩, split, rfl⟩ := Option.map_eq_some_iff.1 parts
  have whole := splitOnce_eq_some split
  have newline := newline_not_mem_lines hline
  rw [whole] at newline
  exact ⟨by simpa using not_mem_of_splitOnce split, by simp; grind, by simp; grind⟩

theorem oneLine_loadCircles {content : String} {c : CircleName} (h : c ∈ loadCircles content) :
    c.OneLine := by
  rcases Table.mem_foldl_upsert h with empty | ⟨e, he, rfl⟩
  · exact absurd empty (Table.not_mem_empty c)
  · exact oneLine_of_mem_circleEntries he

theorem knows_loadCircles (content : String) (circleId : Bytes32) :
    Knows (loadCircles content) circleId ↔ Recorded content circleId := by
  constructor
  · rintro ⟨c, hc, decodes⟩
    rcases Table.mem_foldl_upsert hc with empty | ⟨e, he, rfl⟩
    · exact absurd empty (Table.not_mem_empty c)
    · exact ⟨c, he, decodes⟩
  · rintro ⟨c, hc, decodes⟩
    obtain ⟨e, -, same, present⟩ := Table.exists_mem_foldl_upsert (f := id)
      (Table.empty : CircleMap) ⟨c, hc, rfl⟩
    exact ⟨e, present, by rw [← decodes]; exact congrArg decodeCircleId same⟩

/-! ## The application -/

/-- What a call of the sync client comes to: whether the topic could be opened, which
operations the manager forged, how many of them were broadcast, and whether it succeeded. -/
structure CallRun (Args : Type) where
  opened : Bool
  forged : List Args
  sent : ℕ
  ok : Bool

section Node

variable (H : Hashes Digest Args) (me : Bytes32) [DecidableEq Digest]

/-- Creating, inviting, revoking or sharing, whether or not the call goes through. -/
def callCircle (nd : Node Digest Args) (circleId : Bytes32) (r : CallRun Args) :
    Node Digest Args :=
  if r.opened then
    let topic := topicForCircle H circleId
    let signed := r.forged.foldl (fun nd args => nd.forge H me args)
      (nd.openTopic topic circleLogId)
    (r.forged.take r.sent).foldl (fun nd _ => nd.broadcastCircleOp me topic) signed
  else nd

/-- A call that goes through is the one of the node. -/
theorem callCircle_eq_circleCall (nd : Node Digest Args) (circleId : Bytes32) {r : CallRun Args}
    (opened : r.opened) (sent : r.sent = r.forged.length) :
    callCircle H me nd circleId r = nd.circleCall H me circleId r.forged := by
  simp [callCircle, Node.circleCall, opened, sent]

/-! ### Which topics a call opens -/

variable {H me} {nd : Node Digest Args} {topic t : Digest}

theorem handles_foldl_forge (forged : List Args) (nd : Node Digest Args) :
    (forged.foldl (fun nd args => nd.forge H me args) nd).handles = nd.handles := by
  induction forged generalizing nd with
  | nil => rfl
  | cons args forged ih => exact ih (nd.forge H me args)

omit [DecidableEq Digest] in
theorem handles_foldl_broadcast (sent : List Args) (nd : Node Digest Args) :
    (sent.foldl (fun nd _ => nd.broadcastCircleOp me topic) nd).handles = nd.handles := by
  induction sent generalizing nd with
  | nil => rfl
  | cons args sent ih => exact ih (nd.broadcastCircleOp me topic)

theorem mem_handles_callCircle {circleId : Bytes32} {r : CallRun Args} :
    t ∈ (callCircle H me nd circleId r).handles ↔
      (r.opened ∧ t = topicForCircle H circleId) ∨ t ∈ nd.handles := by
  unfold callCircle
  split
  · next opened =>
    rw [handles_foldl_broadcast, handles_foldl_forge, mem_handles_openTopic]
    simp [opened]
  · next closed => simp [closed]

variable (hash_inj : Function.Injective H.hash)

include hash_inj

/-- A start opens no circle topic. -/
theorem topicForCircle_not_mem_spawn (store : LogStore Digest Args) (keyBundle : Args)
    (circleId : Bytes32) :
    topicForCircle H circleId ∉ (Node.spawn H me store keyBundle).handles := by
  intro opened
  have two : topicForCircle H circleId = circleDirectoryTopic H ∨
      topicForCircle H circleId = globalTopic H := by
    have := mem_handles_openTopic.1 opened
    simpa [mem_handles_openTopic] using this
  rcases two with directory | global
  · exact topicForCircle_ne_directory hash_inj circleId directory
  · exact globalTopic_ne_circle hash_inj (.inr ⟨circleId, rfl⟩) global.symm

end Node

/-- The node with its store, the circles and their file, and the circles that were joined and
whose naming dialog is open. -/
structure CircleApp (Digest Args : Type) where
  node : Node Digest Args
  attached : Bool
  circles : CircleMap
  file : String
  naming : List String

inductive CircleMsg (Digest Args : Type) where
  | restart
  | attached (keyBundle : Args)
  | createCircleAndShare (name : String) (circleId : Bytes32) (create share : CallRun Args)
      (saved : Bool)
  | shareInterpToExistingCircle (idHex : String) (call : CallRun Args)
  | inviteToCircle (idHex : String) (call : CallRun Args)
  | revokeFromCircle (idHex : String) (call : CallRun Args)
  | leaveCircle (idHex : String) (call : CallRun Args) (saved : Bool)
  | joinCircle (circleId : Bytes32) (opened : Bool)
  | nameJoinedCircle (idHex name : String) (saved : Bool)
  | skipName (idHex : String)
  | node (e : NodeEvent Digest Args)

namespace CircleApp

section Step

/-- Change the circles and save them; a write that fails is ignored. -/
def setCircles (s : CircleApp Digest Args) (circles : CircleMap) (saved : Bool) :
    CircleApp Digest Args :=
  { s with circles := circles, file := if saved then saveCircles circles else s.file }

variable (H : Hashes Digest Args) (me : Bytes32) [DecidableEq Digest]
  (s : CircleApp Digest Args)

/-- The handlers that share to a circle, invite to it or revoke from it. -/
def onCircle (idHex : String) (call : CallRun Args) : CircleApp Digest Args :=
  if s.attached then
    match decodeCircleId idHex with
    | some circleId => { s with node := callCircle H me s.node circleId call }
    | none => s
  else s

def step : CircleMsg Digest Args → CircleApp Digest Args
  | .restart => ⟨⟨s.node.store, [], []⟩, false, loadCircles s.file, s.file, []⟩
  | .attached keyBundle => { s with node := .spawn H me s.node.store keyBundle, attached := true }
  | .createCircleAndShare name circleId create share saved =>
    if s.attached then
      let created : CircleApp Digest Args :=
        { s with node := callCircle H me s.node circleId create }
      if create.ok then
        let named := created.setCircles
          (s.circles.upsert ⟨circleIdHex circleId, name⟩) saved
        { named with node := callCircle H me named.node circleId share }
      else created
    else s
  | .shareInterpToExistingCircle idHex call => s.onCircle H me idHex call
  | .inviteToCircle idHex call => s.onCircle H me idHex call
  | .revokeFromCircle idHex call => s.onCircle H me idHex call
  | .leaveCircle idHex call saved =>
    -- revoking its own membership opens the topic, and nothing closes it
    (s.onCircle H me idHex call).setCircles (s.circles.erase idHex) saved
  | .joinCircle circleId opened =>
    if s.attached ∧ opened then
      { s with
        node := s.node.openTopic (topicForCircle H circleId) circleLogId
        naming := circleIdHex circleId :: s.naming }
    else s
  | .nameJoinedCircle idHex name saved =>
    { s.setCircles (s.circles.upsert ⟨idHex, name⟩) saved with naming := s.naming.erase idHex }
  | .skipName idHex => { s with naming := s.naming.erase idHex }
  | .node e => { s with node := s.node.step H me e }

end Step

/-- What the application asks of the node beside the circle calls. -/
def Plain : NodeEvent Digest Args → Prop
  | .restart _ | .openCircle _ | .circleCall .. | .forge _ => False
  | _ => True

/-- A naming dialog answers for a circle that was joined, and the node works once attached. -/
def Enabled (s : CircleApp Digest Args) : CircleMsg Digest Args → Prop
  | .nameJoinedCircle idHex _ _ | .skipName idHex => idHex ∈ s.naming
  | .createCircleAndShare _ _ create _ _ => create.ok → create.opened
  | .node e => s.attached ∧ Plain e ∧ s.node.Enabled e
  | _ => True

/-- A fresh installation. -/
def fresh : CircleApp Digest Args := ⟨⟨LogStore.empty, [], []⟩, false, Table.empty, "", []⟩

/-! ## Topics and membership -/

variable (H : Hashes Digest Args)

/-- Once the client is attached and no circle waits for its name, the open circle topics are
those of the circles of the file. -/
def Follows (s : CircleApp Digest Args) : Prop :=
  s.attached → s.naming = [] →
    ∀ circleId, topicForCircle H circleId ∈ s.node.handles ↔ Recorded s.file circleId

/-- The step keeps topics and membership together: a node is attached while no circle is
recorded; a circle that is created goes through and is saved under a name of one line; a
circle that is called is open already; no circle is left while its topic is open or opens;
and a circle that was joined gets its name. -/
def Tracks (s : CircleApp Digest Args) : CircleMsg Digest Args → Prop
  | .attached _ => s.naming = [] ∧ ∀ circleId, ¬ Recorded s.file circleId
  | .createCircleAndShare name _ create _ saved =>
    s.attached → create.opened → create.ok ∧ saved ∧ '\n' ∉ name.toList
  | .shareInterpToExistingCircle idHex call | .inviteToCircle idHex call
  | .revokeFromCircle idHex call => s.attached → call.opened → ∀ circleId,
    decodeCircleId idHex = some circleId → topicForCircle H circleId ∈ s.node.handles
  | .leaveCircle idHex call saved => saved ∧ (s.attached → ∀ circleId,
    decodeCircleId idHex = some circleId →
      topicForCircle H circleId ∉ s.node.handles ∧ ¬ call.opened)
  | .nameJoinedCircle _ name saved => saved ∧ '\n' ∉ name.toList
  | .skipName idHex => ∀ circleId, decodeCircleId idHex = some circleId →
    Recorded s.file circleId
  | _ => True

/-- The map is what the file says, and the open circle topics are those of the circles that
are in the map or wait for their name. -/
structure Inv (s : CircleApp Digest Args) : Prop where
  oneLine : ∀ c ∈ s.circles, c.OneLine
  file : ∀ circleId, Recorded s.file circleId ↔ Knows s.circles circleId
  naming : ∀ idHex ∈ s.naming, ∃ circleId, idHex = circleIdHex circleId
  topics : s.attached → ∀ circleId, topicForCircle H circleId ∈ s.node.handles ↔
    Knows s.circles circleId ∨ circleIdHex circleId ∈ s.naming

theorem Inv.follows {s : CircleApp Digest Args} (h : s.Inv H) : s.Follows H := by
  intro attached unnamed circleId
  rw [h.topics attached, h.file, unnamed]
  simp

end CircleApp

/-! ### The map -/

theorem knows_upsert {circles : CircleMap} {circleId circleId' : Bytes32} {name : String} :
    Knows (circles.upsert ⟨circleIdHex circleId, name⟩) circleId' ↔
      Knows circles circleId' ∨ circleId' = circleId := by
  constructor
  · rintro ⟨c, hc, decodes⟩
    rcases Table.mem_upsert.1 hc with ⟨old, -⟩ | rfl
    · exact .inl ⟨c, old, decodes⟩
    · rw [decodeCircleId_circleIdHex] at decodes
      exact .inr (Option.some.inj decodes).symm
  · rintro (⟨c, hc, decodes⟩ | rfl)
    · by_cases same : c.idHex = circleIdHex circleId
      · -- the entry that is replaced stood for the same circle
        refine ⟨_, Table.mem_upsert.2 (.inr rfl), ?_⟩
        rw [← decodes, same]
      · exact ⟨c, Table.mem_upsert.2 (.inl ⟨hc, same⟩), decodes⟩
    · exact ⟨_, Table.mem_upsert.2 (.inr rfl), decodeCircleId_circleIdHex _⟩

theorem oneLine_upsert {circles : CircleMap} (h : ∀ c ∈ circles, c.OneLine) {circleId : Bytes32}
    {name : String} (line : '\n' ∉ name.toList) :
    ∀ c ∈ circles.upsert ⟨circleIdHex circleId, name⟩, c.OneLine := by
  intro c hc
  rcases Table.mem_upsert.1 hc with ⟨old, -⟩ | rfl
  · exact h c old
  · exact oneLine_circleIdHex line

namespace CircleApp

section Steps

variable {H : Hashes Digest Args} {me : Bytes32} [DecidableEq Digest] {s : CircleApp Digest Args}
  (hash_inj : Function.Injective H.hash)

include hash_inj in
/-- Calls that concern no circle leave the circle topics as they are. -/
theorem mem_handles_step {e : NodeEvent Digest Args} (plain : Plain e) (nd : Node Digest Args)
    (circleId : Bytes32) : topicForCircle H circleId ∈ (nd.step H me e).handles ↔
      topicForCircle H circleId ∈ nd.handles := by
  have ne : ∀ interpKey, topicForCircle H circleId ≠ topicKeyForInterp H interpKey :=
    fun interpKey same =>
      topicKeyForInterp_not_circle hash_inj interpKey (.inr ⟨circleId, same.symm⟩)
  cases e with
  | restart _ | openCircle _ | circleCall _ _ | forge _ => exact plain.elim
  | subscribe interpKey =>
    exact mem_handles_openTopic.trans (or_iff_right (ne interpKey))
  | publishDoc interpKey payload now =>
    exact mem_handles_openTopic.trans (or_iff_right (ne interpKey))
  | unsubscribe interpKey => simp [Node.step, Node.unsubscribe, ne interpKey]
  | publish payload now => rfl
  | received topic logId op =>
    simp only [Node.step, Node.operationReceived]
    split <;> rfl
  | prune cutoff => rfl

omit [DecidableEq Digest] in
/-- A saved map is what the file says. -/
theorem Inv.setCircles (h : s.Inv H) {circles : CircleMap} (oneLine : ∀ c ∈ circles, c.OneLine)
    (topics : s.attached → ∀ circleId, topicForCircle H circleId ∈ s.node.handles ↔
      Knows circles circleId ∨ circleIdHex circleId ∈ s.naming) :
    (s.setCircles circles true).Inv H where
  oneLine := oneLine
  file := recorded_saveCircles oneLine
  naming := h.naming
  topics := topics

/-- A circle call on an open topic, or one that opens nothing. -/
theorem Inv.onCircle (h : s.Inv H) {idHex : String} {call : CallRun Args}
    (kept : s.attached → call.opened → ∀ circleId, decodeCircleId idHex = some circleId →
      topicForCircle H circleId ∈ s.node.handles) : (s.onCircle H me idHex call).Inv H := by
  unfold CircleApp.onCircle
  split
  · next attached =>
    cases decodes : decodeCircleId idHex with
    | none => exact h
    | some circleId =>
      refine ⟨h.oneLine, h.file, h.naming, fun _ circleId' => ?_⟩
      rw [← h.topics attached, mem_handles_callCircle]
      refine or_iff_right_of_imp fun ⟨opened, same⟩ => ?_
      rw [same]
      exact kept attached opened circleId decodes
  · exact h

include hash_inj in
theorem Inv.createCircleAndShare (h : s.Inv H) {name : String} {circleId : Bytes32}
    {create share : CallRun Args} {saved : Bool} (enabled : create.ok → create.opened)
    (tracks : s.attached → create.opened → create.ok ∧ saved ∧ '\n' ∉ name.toList) :
    (s.step H me (.createCircleAndShare name circleId create share saved)).Inv H := by
  simp only [CircleApp.step]
  split
  · next attached =>
    by_cases opened : create.opened = true
    · obtain ⟨ok, saves, line⟩ := tracks attached opened
      rw [if_pos ok, saves]
      refine ⟨oneLine_upsert h.oneLine line,
        recorded_saveCircles (oneLine_upsert h.oneLine line), h.naming, fun _ circleId' => ?_⟩
      have topics := h.topics attached circleId'
      have own : topicForCircle H circleId' = topicForCircle H circleId ↔ circleId' = circleId :=
        ⟨topicForCircle_injective hash_inj, congrArg _⟩
      simp only [CircleApp.setCircles, mem_handles_callCircle, knows_upsert, topics, own, opened]
      tauto
    · have failed : create.ok = false := by grind
      rw [if_neg (by simp [failed])]
      refine ⟨h.oneLine, h.file, h.naming, fun _ circleId' => ?_⟩
      rw [← h.topics attached, mem_handles_callCircle]
      simp [opened]
  · exact h

include hash_inj in
theorem Inv.attached (h : s.Inv H) {keyBundle : Args}
    (tracks : s.naming = [] ∧ ∀ circleId, ¬ Recorded s.file circleId) :
    (s.step H me (.attached keyBundle)).Inv H := by
  obtain ⟨unnamed, unrecorded⟩ := tracks
  refine ⟨h.oneLine, h.file, h.naming, fun _ circleId => ?_⟩
  refine iff_of_false (topicForCircle_not_mem_spawn hash_inj _ _ circleId) ?_
  rintro (knows | waits)
  · exact unrecorded circleId ((h.file circleId).2 knows)
  · change circleIdHex circleId ∈ s.naming at waits
    simp [unnamed] at waits

/-- Leaving a circle that is not open, or that no sync client knows. -/
theorem Inv.leaveCircle (h : s.Inv H) {idHex : String} {call : CallRun Args}
    (tracks : s.attached → ∀ circleId, decodeCircleId idHex = some circleId →
      topicForCircle H circleId ∉ s.node.handles ∧ ¬ call.opened) :
    (s.step H me (.leaveCircle idHex call true)).Inv H := by
  have called : (s.onCircle H me idHex call).Inv H :=
    h.onCircle fun attached opened circleId decodes => absurd opened (tracks attached _ decodes).2
  obtain ⟨same, still⟩ : (s.onCircle H me idHex call).circles = s.circles ∧
      (s.onCircle H me idHex call).attached = s.attached := by
    unfold CircleApp.onCircle
    repeat' split
    all_goals exact ⟨rfl, rfl⟩
  refine called.setCircles (fun c hc => h.oneLine c (Table.mem_erase.1 hc).1) fun attached => ?_
  intro circleId
  rw [called.topics attached, same]
  refine or_congr_left ⟨?_, fun ⟨c, hc, decodes⟩ => ⟨c, (Table.mem_erase.1 hc).1, decodes⟩⟩
  rintro ⟨c, hc, decodes⟩
  refine ⟨c, Table.mem_erase.2 ⟨hc, ?_⟩, decodes⟩
  rintro rfl
  -- the circle would be in the map and its topic not open
  have attached : s.attached = true := still ▸ attached
  exact (tracks attached circleId decodes).1
    ((h.topics attached circleId).2 (.inl ⟨c, hc, decodes⟩))

include hash_inj in
theorem Inv.joinCircle (h : s.Inv H) {circleId : Bytes32} {opened : Bool} :
    (s.step H me (.joinCircle circleId opened)).Inv H := by
  simp only [CircleApp.step]
  split
  · next joined =>
    refine ⟨h.oneLine, h.file, ?_, fun _ circleId' => ?_⟩
    · intro idHex hmem
      rcases List.mem_cons.1 hmem with rfl | old
      · exact ⟨circleId, rfl⟩
      · exact h.naming idHex old
    · have own : topicForCircle H circleId' = topicForCircle H circleId ↔
          circleIdHex circleId' = circleIdHex circleId :=
        ⟨fun same => congrArg _ (topicForCircle_injective hash_inj same),
          fun same => congrArg _ (circleIdHex_injective same)⟩
      simp only [mem_handles_openTopic, h.topics joined.1, own, List.mem_cons]
      tauto
  · exact h

omit [DecidableEq Digest] in
/-- Closing the dialog of a circle that is in the map. -/
theorem Inv.unname (h : s.Inv H) {circleId : Bytes32} (knows : Knows s.circles circleId) :
    ({ s with naming := s.naming.erase (circleIdHex circleId) } : CircleApp Digest Args).Inv H where
  oneLine := h.oneLine
  file := h.file
  naming idHex hmem := h.naming idHex (List.mem_of_mem_erase hmem)
  topics attached circleId' := by
    rw [h.topics attached]
    by_cases same : circleId' = circleId
    · rw [same]
      exact iff_of_true (.inl knows) (.inl knows)
    · rw [List.mem_erase_of_ne fun hex => same (circleIdHex_injective hex)]

theorem Inv.nameJoinedCircle (h : s.Inv H) {idHex name : String} (waits : idHex ∈ s.naming)
    (line : '\n' ∉ name.toList) : (s.step H me (.nameJoinedCircle idHex name true)).Inv H := by
  obtain ⟨circleId, rfl⟩ := h.naming idHex waits
  have named : (s.setCircles (s.circles.upsert ⟨circleIdHex circleId, name⟩) true).Inv H := by
    refine h.setCircles (oneLine_upsert h.oneLine line) fun attached circleId' => ?_
    rw [h.topics attached, knows_upsert]
    by_cases same : circleId' = circleId
    · rw [same]
      exact iff_of_true (.inr waits) (.inl (.inr rfl))
    · simp [same]
  exact named.unname (knows_upsert.2 (.inr rfl))

theorem Inv.step (hash_inj : Function.Injective H.hash) (h : s.Inv H) {e : CircleMsg Digest Args}
    (enabled : s.Enabled e) (tracks : s.Tracks H e) : (s.step H me e).Inv H := by
  cases e with
  | restart =>
    exact ⟨fun c hc => oneLine_loadCircles hc,
      fun circleId => (knows_loadCircles s.file circleId).symm,
      by simp [CircleApp.step], by simp [CircleApp.step]⟩
  | attached keyBundle => exact h.attached hash_inj tracks
  | createCircleAndShare name circleId create share saved =>
    exact h.createCircleAndShare hash_inj enabled tracks
  | shareInterpToExistingCircle idHex call => exact h.onCircle tracks
  | inviteToCircle idHex call => exact h.onCircle tracks
  | revokeFromCircle idHex call => exact h.onCircle tracks
  | leaveCircle idHex call saved =>
    obtain ⟨rfl, closed⟩ := tracks
    exact h.leaveCircle closed
  | joinCircle circleId opened => exact h.joinCircle hash_inj
  | nameJoinedCircle idHex name saved =>
    obtain ⟨rfl, line⟩ := tracks
    exact h.nameJoinedCircle enabled line
  | skipName idHex =>
    obtain ⟨circleId, rfl⟩ := h.naming idHex enabled
    have recorded : Recorded s.file circleId := tracks circleId (by simp)
    exact h.unname ((h.file circleId).1 recorded)
  | node e =>
    refine ⟨h.oneLine, h.file, h.naming, fun attached circleId => ?_⟩
    exact (mem_handles_step hash_inj enabled.2.1 s.node circleId).trans
      (h.topics attached circleId)

end Steps

variable {H : Hashes Digest Args} {me : Bytes32} [DecidableEq Digest]

omit [DecidableEq Digest] in
theorem inv_fresh : (fresh : CircleApp Digest Args).Inv H where
  oneLine c hc := absurd hc (Table.not_mem_empty c)
  file circleId := by simp [Recorded, Knows, fresh, circleEntries, lines, linesFrom]
  naming := by simp [fresh]
  topics := by simp [fresh]

/-- In every run from a fresh installation whose steps keep topics and membership together,
the open circle topics follow the circles of the file in every state. -/
theorem circle_topics_follow (hash_inj : Function.Injective H.hash)
    (es : List (CircleMsg Digest Args))
    (run : Along (step H me) (fun s e => s.Enabled e ∧ s.Tracks H e) fresh es) :
    Always (step H me) (Follows H) fresh es :=
  Always.of_invariant (fun _ _ inv ok => inv.step hash_inj ok.1 ok.2)
    (fun _ inv => inv.follows) inv_fresh run

end CircleApp

/-! ### A circle that is created before a restart -/

section Session

private def device : Bytes32 := Vector.replicate 32 1

private def firstCircle : Bytes32 := Vector.replicate 32 9

private def goesThrough : CallRun Unit := ⟨true, [()], 1, true⟩

private def creates : CircleMsg Bytes Unit :=
  .createCircleAndShare "home" firstCircle goesThrough goesThrough true

private theorem recorded_firstCircle : Recorded (saveCircles
    ((Table.empty : CircleMap).upsert ⟨circleIdHex firstCircle, "home"⟩)) firstCircle :=
  (recorded_saveCircles (oneLine_upsert (fun c hc => absurd hc (Table.not_mem_empty c))
    (by decide)) _).2 (knows_upsert.2 (.inr rfl))

/-- The user creates a circle and invites somebody to it. -/
theorem circle_topics_follow_create :
    Always (CircleApp.step symbolicHashes device) (CircleApp.Follows symbolicHashes)
      CircleApp.fresh
      [.attached (), creates, .inviteToCircle (circleIdHex firstCircle) goesThrough] := by
  refine CircleApp.circle_topics_follow Function.injective_id _
    ⟨⟨trivial, rfl, ?_⟩, ⟨?_, ?_⟩, ⟨trivial, ?_⟩, trivial⟩
  · intro circleId
    simp [Recorded, CircleApp.fresh, circleEntries, lines, linesFrom]
  · exact fun _ => rfl
  · exact fun _ _ => ⟨rfl, rfl, by decide⟩
  · intro _ _ circleId decodes
    rw [decodeCircleId_circleIdHex] at decodes
    obtain rfl := Option.some.inj decodes
    exact mem_handles_callCircle.2 (.inl ⟨rfl, rfl⟩)

/-- After the next start the circle is in the file and its topic is not open. -/
theorem circle_closed_by_restart :
    Function.Injective symbolicHashes.hash ∧
      ¬ Always (CircleApp.step symbolicHashes device) (CircleApp.Follows symbolicHashes)
        CircleApp.fresh [.attached (), creates, .restart, .attached ()] := by
  refine ⟨Function.injective_id, fun ⟨_, _, _, _, last⟩ => ?_⟩
  have opened := (last rfl rfl firstCircle).2 recorded_firstCircle
  exact topicForCircle_not_mem_spawn Function.injective_id _ _ firstCircle opened

end Session

end Zodia.App
