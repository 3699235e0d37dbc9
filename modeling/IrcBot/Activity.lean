/-
# Last-seen reports (`auth::mark_used`, `hub_client::send_activity`)

A successful authentication stamps the user and its mask; the first one within a
clock hour is also reported to the hub. `SameButActivity`
says what none of this touches.
-/
import IrcBot.Links

namespace IrcBot.Activity

open Cstr

/-- What is pending about each record, users first: the line to report it. -/
def activityLines (b : BotState) : List (Option Str) :=
  (b.userRecords.map fun u =>
    if 0 < u.actPending then
      some (str "a|" ++ u.uuid ++ str "|" ++ dec u.actPending ++ str "\n")
    else none) ++
  b.maskRecords.map fun m =>
    if 0 < m.actPending then
      some (str "m|" ++ m.uuid ++ str "|" ++ m.mask ++ str "|" ++ dec m.actPending ++ str "\n")
    else none

/-- The records with index from `first` up to `i` have been reported. -/
def clearPending (b : BotState) (first i : Nat) : BotState :=
  let nu := b.userRecords.length
  { b with
    userRecords := b.userRecords.mapIdx fun j u =>
      if first ≤ j ∧ j < i then { u with actPending := 0 } else u
    maskRecords := b.maskRecords.mapIdx fun j m =>
      if first ≤ nu + j ∧ nu + j < i then { m with actPending := 0 } else m }

/-- The chunk loop of `send_activity` from record `i` on: `buf` holds the lines of
the records from `first` on. The last round, past the records, only flushes. -/
def activityLoop (b : BotState) (buf : Str) (first i : Nat) : List (Option Str) → BotState
  | [] =>
      if buf.isEmpty then b
      else
        match sendFrame b cmdActivity buf with
        | (false, b) => b
        | (true, b) => clearPending b first i
  | line :: lines =>
      let w := line.getD []
      if !buf.isEmpty && maxBuffer - 64 < buf.length + w.length then
        match sendFrame b cmdActivity buf with
        | (false, b) => b
        | (true, b) => activityLoop (clearPending b first i) w i (i + 1) lines
      else activityLoop b (buf ++ w) (if buf.isEmpty then i else first) (i + 1) lines

/-- `send_activity`. -/
def sendActivity (b : BotState) : BotState :=
  if !b.link.authenticated || !b.link.sock then b
  else activityLoop b [] 0 0 (activityLines b)

/-- `now` opens a new clock hour after `prev`. -/
def activityNewBucket (prev now : Int) : Bool :=
  prev.tdiv activityBucket < now.tdiv activityBucket

/-- `mark_used`. -/
def markUsed (b : BotState) (user maskIdx : Option Nat) (now : Int) : BotState :=
  let users := match user with
    | some ui => b.userRecords.modify ui fun u =>
        { u with
          actPending := if activityNewBucket u.lastSeen now then now else u.actPending
          lastSeen := now }
    | none => b.userRecords
  let masks := match maskIdx with
    | some mi => b.maskRecords.modify mi fun m =>
        { m with
          actPending := if activityNewBucket m.lastUsed now then now else m.actPending
          lastUsed := now }
    | none => b.maskRecords
  sendActivity { b with userRecords := users, maskRecords := masks, configDirty := true }

/-! ### What a report leaves alone -/

/-- Reporting writes the activity times of the records and uses the link; the
records keep everything else. -/
structure SameButActivity (b b' : BotState) : Prop where
  eq : b' = { b with
    link := b'.link, hubOut := b'.hubOut, configDirty := b'.configDirty,
    userRecords := b'.userRecords, maskRecords := b'.maskRecords }
  users : b'.userRecords.map (fun u => (u.uuid, u.isActive, u.timestamp)) =
    b.userRecords.map (fun u => (u.uuid, u.isActive, u.timestamp))
  masks : b'.maskRecords.map (fun m => (m.uuid, m.mask, m.isActive, m.timestamp)) =
    b.maskRecords.map (fun m => (m.uuid, m.mask, m.isActive, m.timestamp))

theorem SameButActivity.refl (b : BotState) : SameButActivity b b := ⟨rfl, rfl, rfl⟩

theorem SameButActivity.trans {b₁ b₂ b₃ : BotState} (h : SameButActivity b₁ b₂)
    (h' : SameButActivity b₂ b₃) : SameButActivity b₁ b₃ := by
  refine ⟨?_, h'.users.trans h.users, h'.masks.trans h.masks⟩
  rw [h'.eq, h.eq]

theorem sameButActivity_of_link {b b' : BotState} (h : SameButLink b b') :
    SameButActivity b b' := by
  refine ⟨?_, ?_, ?_⟩
  all_goals rw [h.eq]

theorem sameButActivity_clearPending (b : BotState) (first i : Nat) :
    SameButActivity b (clearPending b first i) := by
  refine ⟨rfl, ?_, ?_⟩
  · refine List.ext_getElem (by simp [clearPending]) fun j _ _ => ?_
    simp only [clearPending, List.getElem_map, List.getElem_mapIdx]
    split <;> rfl
  · refine List.ext_getElem (by simp [clearPending]) fun j _ _ => ?_
    simp only [clearPending, List.getElem_map, List.getElem_mapIdx]
    split <;> rfl

/-- What sending and clearing keep, the chunks keep. -/
theorem activityLoop_keeps {I : BotState → Prop} (hlink : ∀ b b', SameButLink b b' → I b → I b')
    (hclear : ∀ b first i, I b → I (clearPending b first i)) (lines : List (Option Str)) :
    ∀ (b : BotState) (buf : Str) (first i : Nat), I b → I (activityLoop b buf first i lines) := by
  induction lines with
  | nil =>
      intro b buf first i hb
      have hsend := hlink _ _ (sameButLink_sendFrame b cmdActivity buf) hb
      unfold activityLoop
      split
      · exact hb
      · split
        · rename_i h
          rw [h] at hsend
          exact hsend
        · rename_i h
          rw [h] at hsend
          exact hclear _ _ _ hsend
  | cons line lines ih =>
      intro b buf first i hb
      have hsend := hlink _ _ (sameButLink_sendFrame b cmdActivity buf) hb
      unfold activityLoop
      dsimp only
      split
      · split
        · rename_i h
          rw [h] at hsend
          exact hsend
        · rename_i h
          rw [h] at hsend
          exact ih _ _ _ _ (hclear _ _ _ hsend)
      · exact ih _ _ _ _ hb

theorem sendActivity_keeps {I : BotState → Prop} (hlink : ∀ b b', SameButLink b b' → I b → I b')
    (hclear : ∀ b first i, I b → I (clearPending b first i)) {b : BotState} (hb : I b) :
    I (sendActivity b) := by
  unfold sendActivity
  split
  · exact hb
  · exact activityLoop_keeps hlink hclear _ _ _ _ _ hb

theorem sameButActivity_sendActivity (b : BotState) : SameButActivity b (sendActivity b) := by
  refine sendActivity_keeps (I := SameButActivity b) ?_ ?_ (.refl b)
  · intro b' b'' hlink h
    exact h.trans (sameButActivity_of_link hlink)
  · intro b' first i h
    exact h.trans (sameButActivity_clearPending _ _ _)

/-- The records by what tells them apart, with their times. -/
def times (b : BotState) : List (Str × Int) × List (Str × Str × Int) :=
  (b.userRecords.map fun u => (u.uuid, u.lastSeen), b.maskRecords.map fun m => (m.uuid, m.mask, m.lastUsed))

theorem times_clearPending (b : BotState) (first i : Nat) :
    times (clearPending b first i) = times b := by
  refine Prod.ext ?_ ?_
  · refine List.ext_getElem (by simp [times, clearPending]) fun j _ _ => ?_
    simp only [times, clearPending, List.getElem_map, List.getElem_mapIdx]
    split <;> rfl
  · refine List.ext_getElem (by simp [times, clearPending]) fun j _ _ => ?_
    simp only [times, clearPending, List.getElem_map, List.getElem_mapIdx]
    split <;> rfl

theorem times_sendActivity (b : BotState) : times (sendActivity b) = times b := by
  refine sendActivity_keeps (I := fun b' => times b' = times b) ?_ ?_ rfl
  · intro b' b'' hlink h
    rw [hlink.eq]
    exact h
  · intro b' first i h
    exact (times_clearPending b' first i).trans h

theorem map_modify_of_same {α β : Type} (l : List α) (i : Nat) (f : α → α) (g : α → β)
    (h : ∀ a, g (f a) = g a) : (l.modify i f).map g = l.map g := by
  refine List.ext_getElem (by simp) fun j _ _ => ?_
  simp only [List.getElem_map, List.getElem_modify]
  split <;> simp [h]

theorem sameButActivity_markUsed (b : BotState) (user maskIdx : Option Nat) (now : Int) :
    SameButActivity b (markUsed b user maskIdx now) := by
  unfold markUsed
  refine SameButActivity.trans ⟨rfl, ?_, ?_⟩ (sameButActivity_sendActivity _)
  · cases user with
    | none => rfl
    | some ui => exact map_modify_of_same _ _ _ _ fun _ => rfl
  · cases maskIdx with
    | none => rfl
    | some mi => exact map_modify_of_same _ _ _ _ fun _ => rfl

end IrcBot.Activity
