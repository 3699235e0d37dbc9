/-
# What a chat says (`dcc.rs`)

The bytes of a chat come in reads of any size, and are put together again byte by byte. What comes
of it is the stream cut into lines, each of them handled whole and in its turn, until one of them or
a byte that no line has ends the chat.

* `cutLines_lines` — lines that fit are what the stream is cut into.
* `read_stream` — reading is cutting the stream and handling its lines, whatever the reads are.
-/
import IrcBot.DccTicks

namespace IrcBot.DccChats

open Cstr Crypto Dcc DccLife Commands

open Relation (ReflTransGen)

/-! ### Cutting the stream -/

/-- What is left of a stream when its lines are taken: the front of a line, or why the chat is
closed. -/
inductive Rest where
  | more (inbuf : Str)
  | closed (why : Str)
deriving DecidableEq, Repr

/-- The lines of a stream behind what is in the buffer. -/
def cutLines : Str → Str → List Str × Rest
  | inbuf, [] => ([], .more inbuf)
  | inbuf, c :: bytes =>
      if c = 10 then (inbuf :: (cutLines [] bytes).1, (cutLines [] bytes).2)
      else if World.badByte inbuf c then ([], .closed (str "Unexpected control byte; closing."))
      else if a2LineMax < inbuf.length then ([], .closed (str "Line too long; closing."))
      else cutLines (inbuf ++ [c]) bytes

theorem cutLines_typed {inbuf line : Str} (htyped : Typed (inbuf ++ line)) (bytes : Str) :
    cutLines inbuf (line ++ bytes) = cutLines (inbuf ++ line) bytes := by
  induction line generalizing inbuf with
  | nil => rw [List.append_nil, List.nil_append]
  | cons c line ih =>
      have hc := htyped.clean c (List.mem_append_right _ List.mem_cons_self)
      have hlen := htyped.length
      rw [List.length_append, List.length_cons] at hlen
      have hlf : c ≠ 10 := by
        rintro rfl
        rcases hc with hc | ⟨hc, -⟩
        · exact absurd hc (by decide)
        · exact absurd hc (by decide)
      have hbad : World.badByte inbuf c = false := by
        unfold World.badByte
        simp only [Bool.or_eq_false_iff, Bool.and_eq_false_iff, decide_eq_false_iff_not,
          beq_eq_false_iff_ne, not_not]
        refine ⟨⟨?_, ?_⟩, fun hlast => ?_⟩
        · rcases hc with rfl | ⟨hc, -⟩
          · exact .inr rfl
          · exact .inl (UInt8.not_lt.mpr hc)
        · rcases hc with rfl | ⟨-, hc⟩
          · decide
          · exact hc
        · -- a CR is followed by nothing but LF
          refine htyped.cr ?_
          rw [List.dropLast_append_of_ne_nil (List.cons_ne_nil _ _)]
          exact List.mem_append_left _ (List.mem_of_getLast? hlast)
      rw [List.cons_append, cutLines, if_neg hlf, if_neg (by simp [hbad]), if_neg (by omega),
        ih (by rwa [List.append_assoc]), List.append_assoc]
      rfl

/-- **Lines that fit are what the stream is cut into.** -/
theorem cutLines_lines {lines : List Str} {rest : Str} (hlines : ∀ l ∈ lines, Typed l)
    (hrest : Typed rest) :
    cutLines [] (lines.flatMap (· ++ [10]) ++ rest) = (lines, .more rest) := by
  induction lines with
  | nil =>
      have htyped := @cutLines_typed [] rest hrest []
      rwa [List.append_nil] at htyped
  | cons l lines ih =>
      have hl := hlines l List.mem_cons_self
      rw [List.flatMap_cons, List.append_assoc, List.append_assoc,
        @cutLines_typed [] l hl, List.nil_append, List.singleton_append, cutLines,
        if_pos rfl, ih fun l' hl' => hlines l' (List.mem_cons_of_mem l hl')]

/-! ### Handling the lines -/

namespace World

variable (P : Primitives) (h : Handler) (i token : Nat)

/-- One line of the chat, with nothing in its buffer. -/
def serve (w : World) (line : Str) : Bool × World :=
  let w := w.modifyChat i fun s => { s with inbuf := [] }
  if (chomp line).isEmpty then (true, w)
  else
    let r := w.handleDccLine P h i (fromUtf8Lossy (chomp line))
    if !r.1 then
      (false, if (r.2.chat i).token = some token then r.2.close i (some notSealed) else r.2)
    else (decide ((r.2.chat i).token = some token ∧ (r.2.chat i).phase = .opened), r.2)

/-- Line after line, until one of them ends the chat, and then what is left of the stream. -/
def serveLines : World → List Str → Rest → World
  | w, [], .more inbuf => w.modifyChat i fun s => { s with inbuf }
  | w, [], .closed why => w.close i (some why)
  | w, l :: lines, rest =>
      let r := w.serve P h i token l
      if r.1 then serveLines r.2 lines rest else r.2

end World

section

variable {w : World} {i : Nat}

/-- Only reading puts something in the buffer. -/
theorem inbuf_moves {w' : World} (hmoves : Moves w w') (hnil : (w.chat i).inbuf = []) :
    (w'.chat i).inbuf = [] := by
  induction hmoves with
  | refl => exact hnil
  | tail _ hmove ih =>
      cases hmove with
      | aside hdcc htrace hoffers hcalls =>
          rw [World.chat, hdcc]
          exact ih
      | written hlen htrace hoffers hcalls hchat =>
          obtain ⟨s, -, heq⟩ := hchat i
          rw [heq]
          exact ih
      | noted hphase hf =>
          refine (modify_keeps (g := Chat.inbuf) (fun c => ?_) i).trans ih
          rw [hf]
      | freed k =>
          by_cases hk : i = k
          · subst hk
            rw [chat_free_self]
          · rw [chat_free_ne hk]
            exact ih
      | offered hlt hfree htyp hactive hclear nick botnick userHost dccToken =>
          refine Eq.trans (modify_keeps (g := Chat.inbuf) ?_ i) ih
          intro c
          rfl
      | dialled hphase hdial sock token =>
          refine Eq.trans (modify_keeps (g := Chat.inbuf) ?_ i) ih
          intro c
          rfl
      | opened hphase =>
          refine Eq.trans (modify_keeps (g := Chat.inbuf) ?_ i) ih
          intro c
          rfl
      | ran hphase hadmin cmd => exact ih
      | handed hrightful => exact ih

theorem modify_modify (w : World) (i : Nat) (f g : Chat → Chat) :
    (w.modifyChat i f).modifyChat i g = w.modifyChat i (g ∘ f) := by
  rw [World.modifyChat, World.modifyChat, World.modifyChat, List.modify_modify_eq]

theorem modify_self {f : Chat → Chat} (hf : f (w.chat i) = w.chat i) : w.modifyChat i f = w := by
  have hdcc : w.dcc.modify i f = w.dcc := by
    refine List.ext_getElem? fun j => ?_
    rw [List.getElem?_modify]
    by_cases hij : i = j
    · subst hij
      cases hi : w.dcc[i]? with
      | none => rfl
      | some c =>
          rw [World.chat, List.getD_eq_getElem?_getD, hi] at hf
          simpa using hf
    · simp [hij]
  rw [World.modifyChat, hdcc]

/-- A chat that ends leaves nothing of what was in it. -/
theorem free_modify {f : Chat → Chat} (hphase : ∀ c, (f c).phase = c.phase)
    (hno : ∀ c, (f c).no = c.no) : (w.modifyChat i f).free i = w.free i := by
  have hset : (w.modifyChat i f).dcc.set i {} = w.dcc.set i {} := by
    refine List.ext_getElem? fun j => ?_
    rw [World.modifyChat, List.getElem?_set, List.getElem?_set, List.getElem?_modify,
      List.length_modify]
    by_cases hij : i = j
    · simp [hij]
    · simp [hij]
  have hphase' : ((w.modifyChat i f).chat i).phase = (w.chat i).phase :=
    modify_keeps (g := fun c => c.phase) hphase i
  have hno' : ((w.modifyChat i f).chat i).no = (w.chat i).no := modify_keeps (g := Chat.no) hno i
  unfold World.free
  rw [hphase']
  split
  · dsimp only
    rw [hset]
    rfl
  · unfold World.note
    dsimp only
    rw [hset, hno']
    rfl

/-- A change of the buffer only. -/
def Buffers (f : Chat → Chat) : Prop := ∀ c, f c = { c with inbuf := (f c).inbuf }

theorem close_modify (w : World) (i : Nat) {f : Chat → Chat} (hf : Buffers f) (why : Str) :
    (w.modifyChat i f).close i (some why) = w.close i (some why) := by
  have hqueue : ∀ w : World, (w.queueTo i why).free i = w.free i := fun w =>
    free_modify (fun c => congrArg Prod.fst (queue_same c.toDccSession why)) fun _ => rfl
  have hphase : ∀ c, (f c).phase = c.phase := fun c => by rw [hf c]
  have hno : ∀ c, (f c).no = c.no := fun c => by rw [hf c]
  change ((w.modifyChat i f).queueTo i why).free i = (w.queueTo i why).free i
  rw [hqueue, hqueue, free_modify hphase hno]

/-- Only the last change of the buffer is left. -/
theorem modify_inbuf (w : World) (i : Nat) {f : Chat → Chat} (hf : Buffers f) (inbuf : Str) :
    ((w.modifyChat i f).modifyChat i fun s => { s with inbuf }) =
      w.modifyChat i fun s => { s with inbuf } := by
  rw [modify_modify]
  refine congrArg (w.modifyChat i) (funext fun c => ?_)
  rw [Function.comp_apply, hf c]

variable (P : Primitives) (h : Handler) (token : Nat)

/-- A line does not see what is in the buffer. -/
theorem serveLines_modify (w : World) {f : Chat → Chat} (hf : Buffers f) (lines : List Str)
    (rest : Rest) :
    World.serveLines P h i token (w.modifyChat i f) lines rest =
      World.serveLines P h i token w lines rest := by
  cases lines with
  | nil =>
      cases rest with
      | more inbuf => exact modify_inbuf w i hf inbuf
      | closed why => exact close_modify w i hf why
  | cons l lines =>
      have hserve : (w.modifyChat i f).serve P h i token l = w.serve P h i token l := by
        unfold World.serve
        rw [modify_inbuf w i hf]
      rw [World.serveLines, hserve]
      rfl

/-- While reading goes on nothing is in the buffer behind a line. -/
theorem inbuf_serve (hphase : (w.chat i).phase = .opened) (line : Str) :
    ((w.serve P h i token line).1 = true → ((w.serve P h i token line).2.chat i).inbuf = [] ∧
      ((w.serve P h i token line).2.chat i).phase = .opened) := by
  have hlt : i < w.dcc.length := lt_length_of_phase (by rw [hphase]; exact DccPhase.noConfusion)
  have hself := chat_modify_self hlt fun s => { s with inbuf := [] }
  have hopen := phase_modify (f := fun s => { s with inbuf := [] }) (fun _ => rfl) hphase
  unfold World.serve
  dsimp only
  split
  · intro _
    exact ⟨by rw [hself], hopen⟩
  · split
    · intro hfalse
      cases hfalse
    · intro htrue
      refine ⟨inbuf_moves (moves_handleDccLine P h hopen _) (by rw [hself]), ?_⟩
      exact (of_decide_eq_true htrue).2

/-- What one read brings is cut, and its lines are handled. -/
theorem readBytes_eq (bytes : Str) (w : World) (hphase : (w.chat i).phase = .opened) :
    (w.readBytes P h i token bytes).2 = World.serveLines P h i token w
      (cutLines (w.chat i).inbuf bytes).1 (cutLines (w.chat i).inbuf bytes).2 := by
  induction bytes generalizing w with
  | nil =>
      refine (modify_self ?_).symm
      rfl
  | cons c bytes ih =>
      unfold World.readBytes World.readByte cutLines
      dsimp only
      split
      · have htake : w.takeLine P h i token = w.serve P h i token (w.chat i).inbuf := rfl
        have hserve := inbuf_serve P h token hphase (w.chat i).inbuf
        rw [htake, World.serveLines]
        dsimp only
        split
        · rename_i hmore
          obtain ⟨hnil, hopen⟩ := hserve hmore
          rw [ih _ hopen, hnil]
        · rfl
      · split
        · rfl
        · split
          · rfl
          · have hlt : i < w.dcc.length :=
              lt_length_of_phase (by rw [hphase]; exact DccPhase.noConfusion)
            have hself := chat_modify_self hlt fun s => { s with inbuf := s.inbuf ++ [c] }
            have hopen := phase_modify (f := fun s => { s with inbuf := s.inbuf ++ [c] }) (fun _ => rfl) hphase
            dsimp only
            rw [if_pos rfl, ih _ hopen, hself]
            exact serveLines_modify P h token w (fun _ => rfl) _ _

/-! ### Reads of any size -/

theorem readBytes_append (w : World) (xs ys : Str) : w.readBytes P h i token (xs ++ ys) =
    if (w.readBytes P h i token xs).1 then (w.readBytes P h i token xs).2.readBytes P h i token ys
    else w.readBytes P h i token xs := by
  induction xs generalizing w with
  | nil => rfl
  | cons c xs ih =>
      rw [List.cons_append, World.readBytes, World.readBytes]
      split
      · exact ih _
      · rfl

theorem tidy_steps {w w' : World} (hsteps : Steps w w') (hw : ∀ i, Tidy (w.chat i)) :
    ∀ i, Tidy (w'.chat i) := by
  induction hsteps with
  | refl => exact hw
  | tail _ hlast ih => exact tidy_step ih hlast

theorem read_flatten {chunks : List Str} (hne : ∀ c ∈ chunks, c ≠ []) {w : World}
    (htidy : ∀ j, Tidy (w.chat j)) (hphase : (w.chat i).phase = .opened) :
    w.read P h i token (chunks.map .data) = (w.readBytes P h i token chunks.flatten).2 := by
  induction chunks generalizing w with
  | nil => rfl
  | cons b chunks ih =>
      have hsock := ((htidy i).plugged (.inr hphase)).1
      have hb : b.isEmpty = false := List.isEmpty_eq_false_iff.mpr (hne b List.mem_cons_self)
      obtain ⟨hsteps, hopen⟩ := reads_readBytes P h i token b w hphase
      have hplugged : ¬ (w.chat i).sock.isNone = true := by
        rw [Option.isNone_iff_eq_none]
        intro hnone
        rw [hnone] at hsock
        cases hsock
      rw [List.map_cons, List.flatten_cons, readBytes_append, World.read, if_neg hplugged, hb,
        if_neg Bool.false_ne_true]
      dsimp only
      split
      · rename_i hmore
        exact ih (fun c hc => hne c (List.mem_cons_of_mem b hc)) (tidy_steps hsteps htidy) (hopen hmore)
      · rfl

/-- **Reading is cutting the stream and handling its lines**, whatever the reads are: each line
whole and in its turn, until one of them or a byte that no line has ends the chat. -/
theorem read_stream {w : World} (hw : Reach P h w) (hphase : (w.chat i).phase = .opened)
    {chunks : List Str} (hne : ∀ c ∈ chunks, c ≠ []) :
    w.read P h i token (chunks.map .data) = World.serveLines P h i token w
      (cutLines (w.chat i).inbuf chunks.flatten).1 (cutLines (w.chat i).inbuf chunks.flatten).2 := by
  rw [read_flatten P h token hne (slots_tidy P h hw) hphase, readBytes_eq P h token _ w hphase]

/-- A line in three reads, and the front of another. -/
theorem read_stream_pieces :
    aliceWorld.read .clear (fun _ _ => []) 0 18 ([str "~A2 ", str "abc\r\n~", str "A2"].map .data) =
      World.serveLines .clear (fun _ _ => []) 0 18 aliceWorld [str "~A2 abc\r"] (.more (str "~A2")) := by
  have hopen : (aliceWorld.chat 0).phase = .opened := by decide +kernel
  have hempty : (aliceWorld.chat 0).inbuf = [] := by decide +kernel
  have hne : ∀ c ∈ [str "~A2 ", str "abc\r\n~", str "A2"], c ≠ [] := by decide
  have hread := read_stream .clear (fun _ _ => []) 18 reach_aliceWorld hopen hne
  rw [hempty] at hread
  exact hread

end

end IrcBot.DccChats
