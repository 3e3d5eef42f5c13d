import Zodia.Lib.Run

/-!
# The caption "Seen"

Opening the page of a chat sends a read receipt to the peer, who shows a caption below the last line
of the chat, if that line is of their own. The caption is kept as one truth value for the whole chat
(`app/src/app.rs`): sending a message on the channel takes it back, handling a receipt sets it.
Messages through a relay are lines of the chat too, but leave it as it is.

## Main definitions

* `SeenChat`, `SeenChat.step` — one side of a chat, and what the other side has opened.
* `SeenChat.Timely` — nothing is sent that a receipt could be mistaken for.

## Main results

* `seen_caption` — the caption tells the truth as long as every step is timely, and after a step
  that is not, it may be wrong.
-/

namespace Zodia.App

open Lib

/-! ## One side of a chat -/

/-- The lines of the chat, `true` for our own, and the receipts on their way to us. The program does
not have the last two: how many messages were sent to the peer, and how many there were when the
peer last opened their page. -/
structure SeenChat where
  lines : List Bool
  chatSeen : Bool
  receipts : ℕ
  sent : ℕ
  opened : ℕ

/-- `delivered` tells whether the channel took the message. -/
inductive SeenEvent where
  | sendChat (delivered : Bool)
  | sendViaRelay (delivered : Bool)
  | received
  | opened (delivered : Bool)
  | receiptLost
  | chatSeen
  | restart (lines : List Bool)

namespace SeenChat

def fresh : SeenChat := ⟨[], false, 0, 0, 0⟩

def step (s : SeenChat) : SeenEvent → SeenChat
  | .sendChat delivered =>
    if delivered then
      { s with lines := s.lines ++ [true], chatSeen := false, sent := s.sent + 1 }
    else s
  -- the caption is not taken back
  | .sendViaRelay delivered =>
    if delivered then { s with lines := s.lines ++ [true], sent := s.sent + 1 } else s
  | .received => { s with lines := s.lines ++ [false] }
  | .opened delivered =>
    { s with opened := s.sent, receipts := if delivered then s.receipts + 1 else s.receipts }
  | .receiptLost => { s with receipts := s.receipts - 1 }
  | .chatSeen =>
    if 0 < s.receipts then { s with receipts := s.receipts - 1, chatSeen := true } else s
  | .restart lines => { s with lines := lines, chatSeen := false, receipts := 0 }

/-- The caption is shown, below a line of ours. -/
def Captioned (s : SeenChat) : Prop := s.lines.getLast? = some true ∧ s.chatSeen = true

/-- The peer has opened their page since our last message was sent. -/
def Seen (s : SeenChat) : Prop := s.opened = s.sent

/-- A message is sent with no receipt on its way, through a relay only without a caption. -/
def Timely (s : SeenChat) : SeenEvent → Prop
  | .sendChat delivered => delivered = true → s.receipts = 0
  | .sendViaRelay delivered => delivered = true → s.receipts = 0 ∧ s.chatSeen = false
  | _ => True

/-! ## What runs keep -/

variable {s : SeenChat}

/-- A receipt, handled or not, is of an opening after the last message. -/
def Sound (s : SeenChat) : Prop := s.chatSeen = true ∨ 0 < s.receipts → s.Seen

theorem Sound.step (h : s.Sound) {e : SeenEvent} (timely : s.Timely e) : (s.step e).Sound := by
  unfold Sound Seen at *
  cases e with
  | sendChat delivered =>
    cases delivered with
    | false => exact h
    | true =>
      have none : s.receipts = 0 := timely rfl
      simp [SeenChat.step, none]
  | sendViaRelay delivered =>
    cases delivered with
    | false => exact h
    | true =>
      have quiet : s.receipts = 0 ∧ s.chatSeen = false := timely rfl
      simp [SeenChat.step, quiet]
  | received => exact h
  | opened delivered => exact fun _ => rfl
  | receiptLost =>
    intro any
    refine h (any.imp_right fun left => ?_)
    simp only [SeenChat.step] at left
    omega
  | chatSeen =>
    unfold SeenChat.step
    dsimp only
    split_ifs with waiting
    · exact fun _ => h (.inr waiting)
    · exact h
  | restart lines => simp [SeenChat.step]

/-- Nobody sees what was not sent. -/
theorem opened_le_step (h : s.opened ≤ s.sent) (e : SeenEvent) :
    (s.step e).opened ≤ (s.step e).sent := by
  cases e <;> grind [SeenChat.step]

/-- A receipt that is older than the last message puts the caption below it. -/
theorem captioned_chatSeen (waiting : 0 < s.receipts) (ours : s.lines.getLast? = some true)
    (unseen : s.opened < s.sent) :
    (s.step .chatSeen).Captioned ∧ ¬(s.step .chatSeen).Seen := by
  rw [SeenChat.step, if_pos waiting]
  exact ⟨⟨ours, rfl⟩, Nat.ne_of_lt unseen⟩

/-- After a step that is not timely the caption may stand below a line that nobody has seen. -/
theorem captioned_of_not_timely (h : s.opened ≤ s.sent) {e : SeenEvent} (late : ¬s.Timely e) :
    ∃ more, let t := exec step (s.step e) more
      t.Captioned ∧ ¬t.Seen := by
  have last_ours : (s.lines ++ [true]).getLast? = some true := by simp
  cases e with
  | sendChat delivered =>
    obtain ⟨rfl, some_receipt⟩ := Classical.not_imp.1 late
    have waiting : 0 < s.receipts := Nat.pos_of_ne_zero some_receipt
    exact ⟨[.chatSeen], captioned_chatSeen waiting last_ours (Nat.lt_succ_of_le h)⟩
  | sendViaRelay delivered =>
    obtain ⟨rfl, pending⟩ := Classical.not_imp.1 late
    by_cases waiting : 0 < s.receipts
    · exact ⟨[.chatSeen], captioned_chatSeen waiting last_ours (Nat.lt_succ_of_le h)⟩
    · have caption : s.chatSeen = true := by grind
      exact ⟨[], ⟨last_ours, caption⟩, Nat.ne_of_lt (Nat.lt_succ_of_le h)⟩
  | _ => exact absurd trivial late

end SeenChat

/-! ## The caption -/

/-- What the caption says in a state of a run `es`. -/
structure SeenTells (es : List SeenEvent) : Prop where
  truthful : Along SeenChat.step SeenChat.Timely .fresh es →
    (exec SeenChat.step .fresh es).Captioned → (exec SeenChat.step .fresh es).Seen
  /-- No other condition would do. -/
  necessary : ∀ e, ¬(exec SeenChat.step .fresh es).Timely e → ∃ more,
    let t := exec SeenChat.step .fresh (es ++ e :: more)
    t.Captioned ∧ ¬t.Seen

/-- **The caption tells the truth while messages are sent in time**, and under no other
condition. -/
theorem seen_caption (es : List SeenEvent) : SeenTells es := by
  have bounded : (exec SeenChat.step .fresh es).opened ≤ (exec SeenChat.step .fresh es).sent :=
    exec_keeps (fun s : SeenChat => s.opened ≤ s.sent)
      (fun s e h => SeenChat.opened_le_step h e) (Nat.le_refl 0) es
  refine ⟨fun timely captioned => ?_, fun e late => ?_⟩
  · have start : SeenChat.fresh.Sound := by simp [SeenChat.Sound, SeenChat.fresh]
    have sound : (exec SeenChat.step .fresh es).Sound :=
      exec_invariant (fun _ _ sound ok => sound.step ok) start timely
    exact sound (.inl captioned.2)
  · obtain ⟨more, wrong⟩ := SeenChat.captioned_of_not_timely bounded late
    refine ⟨more, ?_⟩
    rw [exec_append, exec_cons]
    exact wrong

end Zodia.App
