/-
# Whom the hub's requests name (`hub_client.rs`)

A hub composes OP_GRANT, CHAN_DO, CHAN_ACTION and INVITE_REQUEST frames for a
requester whose nick may be any RFC 2812 nick. The handlers read the fields at
different widths and split them at `|`, which such a nick may hold.

* `rightPerson_iff` — for each frame, when every line the bot queues because of it
  names the requester, whatever the state.
* `not_rightPerson` — an OP_GRANT for a nick of ten bytes ops its first nine.
-/
import IrcBot.HubRequests

namespace IrcBot.RequestNames

open Cstr Chancfg Chanlive HubRequests Channel

variable (P : Primitives) (rest : UInt8 → Str → BotState → BotState)

/-! ### The frames -/

/-- The fields of a channel request. -/
structure Fields where
  id : Str
  kind : Str
  chan : Str
  requester : Str
  nick : Str
  mask : Str

/-- Their payload, `id|kind|channel|requester|nick|hostmask`. -/
def Fields.payload (f : Fields) : Str :=
  f.id ++ byte '|' :: (f.kind ++ byte '|' :: (f.chan ++ byte '|' :: (f.requester ++ byte '|' ::
    (f.nick ++ byte '|' :: f.mask))))

/-- A frame the hub composes for a requester. -/
inductive Frame where
  | opGrant (nick userhost chan : Str)
  | inviteRequest (nick chan : Str)
  | chanDo (f : Fields)
  | chanAction (f : Fields)

/-- The requester's nick. -/
def Frame.nick : Frame → Str
  | .opGrant nick _ _ => nick
  | .inviteRequest nick _ => nick
  | .chanDo f => f.nick
  | .chanAction f => f.nick

def Frame.cmd : Frame → UInt8
  | .opGrant _ _ _ => cmdOpGrant
  | .inviteRequest _ _ => cmdInviteRequest
  | .chanDo _ => cmdChanDo
  | .chanAction _ => cmdChanAction

def Frame.payload : Frame → Str
  | .opGrant nick userhost chan => nick ++ byte '!' :: userhost ++ byte '|' :: chan
  | .inviteRequest nick chan => nick ++ byte '|' :: chan
  | .chanDo f => f.payload
  | .chanAction f => f.payload

/-- What the bot does with it. -/
def Frame.run (b : BotState) (x : Frame) : BotState := handleResponse P rest b x.cmd x.payload

/-- A field the hub fills in: one token without a delimiter, of at most `max` bytes. -/
structure Token (max : Nat) (s : Str) : Prop where
  ne : s ≠ []
  le : s.length ≤ max
  plain : ∀ b ∈ s, 0x20 < b ∧ b ≠ byte '|'
  head : ∀ b ∈ s.head?, b < 128 ∨ 192 ≤ b

/-- The other fields are tokens of their widths, the nick is an RFC 2812 nick of up
to 30 characters. -/
def Frame.WellFormed : Frame → Prop
  | .opGrant nick userhost chan => chanDoNickOk nick = true ∧ Token 224 userhost ∧ Token 64 chan
  | .inviteRequest nick chan => chanDoNickOk nick = true ∧ Token 64 chan
  | .chanDo f => chanDoNickOk f.nick = true ∧ Token 63 f.id ∧ Token 15 f.kind ∧ Token 64 f.chan ∧
      Token 63 f.requester
  | .chanAction f => chanDoNickOk f.nick = true ∧ Token 63 f.id ∧ Token 15 f.kind ∧
      Token 64 f.chan ∧ Token 63 f.requester

/-- Every op that is held from `b` to `b'` is for `nick`. -/
def HoldsOnly (nick : Str) (b b' : BotState) : Prop :=
  ∀ (ci : Nat) (c' : Chan), b'.chans[ci]? = some c' → ∀ h ∈ c'.opGrantHeld,
    h.1 = nick ∨ ∃ c, b.chans[ci]? = some c ∧ h ∈ c.opGrantHeld

/-- Every line queued from `b` to `b'` names `nick` exactly, and so does every op
held for later, and every line queued from that list once the bot is opped. -/
structure RightPerson (nick : Str) (b b' : BotState) : Prop where
  lines : NamesOnly (·.nick = nick) b b'
  held : HoldsOnly nick b b'
  later : ∀ (b'' : BotState) (ci : Nat), b''.chans = b'.chans →
    NamesOnly (fun x => x.nick = nick ∨
      ∃ c h, b.chans[ci]? = some c ∧ h ∈ c.opGrantHeld ∧ x.nick = h.1) b'' (grantHeldOps b'' ci)

/-- The part of a nick in front of its first delimiter. -/
def front (nick : Str) : Str := nick.takeWhile (· ≠ byte '|')

/-- The handler reads the nick whole, or nothing that it acts on. -/
def Frame.Readable : Frame → Prop
  | .opGrant nick _ _ => front nick = [] ∨ front nick = nick ∧ nick.length ≤ 9
  | .inviteRequest nick _ => front nick = [] ∨ front nick = nick ∨ 9 < (front nick).length
  | .chanDo f => f.kind ≠ str "op" ∧ f.kind ≠ str "invite" ∨ front f.nick = [] ∨
      front f.nick = f.nick
  | .chanAction f => ChanReq.fromToken f.kind ≠ some .invite ∨ front f.nick = [] ∨
      front f.nick = f.nick ∧ f.nick.length ≤ 9

/-! ### Nicks -/

/-- A nick is of ASCII bytes above the blank, none of them a `!`. -/
theorem of_chanDoNickOk {nick : Str} (h : chanDoNickOk nick = true) :
    nick ≠ [] ∧ nick.length ≤ 30 ∧ ∀ b ∈ nick, b < 128 ∧ 0x20 < b ∧ b ≠ byte '!' := by
  simp only [chanDoNickOk, Bool.and_eq_true, Bool.not_eq_true', List.isEmpty_eq_false_iff,
    decide_eq_true_eq, List.all_eq_true, Bool.or_eq_true] at h
  obtain ⟨⟨⟨hne, hlen⟩, -⟩, hall⟩ := h
  refine ⟨hne, hlen, fun b hb => ?_⟩
  rcases hall b hb with (halpha | hdigit) | hspecial
  · simp only [isAlpha, Bool.or_eq_true, Bool.and_eq_true, decide_eq_true_eq] at halpha
    have hbang : byte '!' = 33 := by decide
    grind
  · simp only [isDigit, Bool.and_eq_true, decide_eq_true_eq] at hdigit
    have hbang : byte '!' = 33 := by decide
    grind
  · have hset : ∀ c ∈ str "[]\\`_^\x7b\x7d|-", c < 128 ∧ 0x20 < c ∧ c ≠ byte '!' := by
      decide +kernel
    exact hset b (List.contains_iff_mem.mp hspecial)

theorem notMem_front (nick : Str) : byte '|' ∉ front nick := fun hmem => by
  simpa using List.mem_takeWhile_imp hmem

theorem front_isPrefix (nick : Str) : front nick <+: nick := List.takeWhile_prefix _

/-- A nick is its front, or goes on behind a delimiter. -/
theorem front_cases (nick : Str) :
    front nick = nick ∨ ∃ tail, nick = front nick ++ byte '|' :: tail := by
  have happ := List.takeWhile_append_dropWhile (p := (· ≠ byte '|')) (l := nick)
  cases htail : nick.dropWhile (· ≠ byte '|') with
  | nil =>
      rw [htail, List.append_nil] at happ
      exact .inl happ
  | cons c tail =>
      have hhead := List.head?_dropWhile_not (· ≠ byte '|') nick
      rw [htail] at hhead happ
      obtain rfl : c = byte '|' := by simpa using hhead
      exact .inr ⟨tail, happ.symm⟩

/-- What stands behind the front when a field follows the nick. -/
theorem front_append (nick rest : Str) :
    ∃ rest', nick ++ byte '|' :: rest = front nick ++ byte '|' :: rest' ∧
      (front nick = nick ∧ rest' = rest ∨
        ∃ tail, nick = front nick ++ byte '|' :: tail ∧ rest' = tail ++ byte '|' :: rest) := by
  rcases front_cases nick with hself | ⟨tail, htail⟩
  · exact ⟨rest, by rw [hself], .inl ⟨hself, rfl⟩⟩
  · refine ⟨tail ++ byte '|' :: rest, ?_, .inr ⟨tail, htail, rfl⟩⟩
    conv_lhs => rw [htail]
    simp

/-- Another nick than one that holds a delimiter. -/
theorem take_front_ne {nick : Str} (h : front nick ≠ nick) (n : Nat) :
    (front nick).take n ≠ nick := by
  intro heq
  have hle : nick.length ≤ (front nick).length := by
    have hlen := congrArg List.length heq
    rw [List.length_take] at hlen
    omega
  exact h ((front_isPrefix nick).eq_of_length_le hle)

/-! ### What the formats read -/

/-- The start of a character, or the end. -/
def Starts (s : Str) : Prop := ∀ b ∈ s.head?, b < 128 ∨ 192 ≤ b

theorem isCharBoundary_one {w u : Str} {sep : UInt8} (hw : ∀ b ∈ w, b < 128) (hsep : sep < 128)
    (hu : Starts u) : isCharBoundary (w ++ sep :: u) 1 = true := by
  rcases w with - | ⟨a, - | ⟨b, w⟩⟩
  · cases u with
    | nil => rfl
    | cons c u => simpa [isCharBoundary] using hu c rfl
  · simp [isCharBoundary, hsep]
  · simp [isCharBoundary, hw b (by simp)]

/-- A nick in front of a delimiter, as a field of width `max` reads it. -/
theorem setNot_nick {max : Nat} {w rest : Str} (hmax : 0 < max) (hne : w ≠ [])
    (hw : ∀ b ∈ w, b < 128) (hpipe : byte '|' ∉ w) :
    setNot max pipe (w ++ byte '|' :: rest) =
      some (w.take max, w.drop max ++ byte '|' :: rest) := by
  have hexcl : ∀ b ∈ w, b ∉ pipe := by
    rintro b hb hmem
    obtain rfl : b = byte '|' := by simpa [pipe, str] using hmem
    exact hpipe hb
  rcases Nat.lt_or_ge max w.length with hlong | hshort
  · have hne' : w.take max ≠ [] := by
      rw [ne_eq, List.take_eq_nil_iff]
      exact fun h => h.elim (by omega) hne
    have hrest : ∀ c ∈ (w.drop max ++ byte '|' :: rest).head?, c < 128 ∨ 192 ≤ c := by
      rw [List.drop_eq_getElem_cons hlong, List.cons_append, List.head?_cons]
      rintro c ⟨rfl⟩
      exact .inl (hw _ (List.getElem_mem hlong))
    have hfull := setNot_full hne' (fun b hb => hexcl b (List.mem_of_mem_take hb)) hrest
    rwa [List.length_take, Nat.min_eq_left hlong.le, ← List.append_assoc,
      List.take_append_drop] at hfull
  · rw [List.take_of_length_le hshort, List.drop_eq_nil_of_le hshort]
    refine setNot_append hne hshort hexcl fun c hc => ?_
    obtain rfl : byte '|' = c := by simpa using hc
    exact ⟨by decide, by decide⟩

/-- Something is read where a character starts. -/
theorem setNot_starts (max : Nat) {excl r : Str} (hmax : 0 < max) (hne : r ≠ [])
    (hr : ∀ b ∈ r, b ∉ excl) (hone : isCharBoundary r 1 = true) :
    ∃ v rest, setNot max excl r = some (v, rest) ∧ v ≠ [] ∧ v.length ≤ max ∧ v <+: r := by
  have hlen : 1 ≤ ((r.take max).takeWhile (· ∉ excl)).length := by
    cases r with
    | nil => simp at hne
    | cons c r =>
        obtain ⟨n, rfl⟩ := Nat.exists_eq_succ_of_ne_zero hmax.ne'
        simp [hr c]
  have hcut := le_cutBack hone hlen
  have hread : setNot max excl r = some _ := if_neg (by omega)
  refine ⟨_, _, hread, ?_, length_setNot_le hread, List.take_prefix _ _⟩
  rw [ne_eq, List.take_eq_nil_iff]
  exact fun h => h.elim (by omega) hne

theorem word_starts (max : Nat) {r : Str} (hmax : 0 < max) (hne : r ≠ [])
    (hr : ∀ b ∈ r, isCSpace b = false) (hone : isCharBoundary r 1 = true) :
    ∃ v rest, word max r = some (v, rest) ∧ v ≠ [] ∧ v.length ≤ max ∧ v <+: r := by
  have hskip : r.dropWhile isCSpace = r := by
    cases r with
    | nil => rfl
    | cons c r => simp [hr c]
  have hlen : 1 ≤ ((r.take max).takeWhile (!isCSpace ·)).length := by
    cases r with
    | nil => simp at hne
    | cons c r =>
        obtain ⟨n, rfl⟩ := Nat.exists_eq_succ_of_ne_zero hmax.ne'
        simp [hr c]
  have hcut := le_cutBack hone hlen
  have hread : word max r = some (r.take (cutBack r ((r.take max).takeWhile (!isCSpace ·)).length),
      r.drop (cutBack r ((r.take max).takeWhile (!isCSpace ·)).length)) := by
    unfold word
    dsimp only
    rw [hskip, if_neg (by omega)]
  refine ⟨_, _, hread, ?_, length_word_le hread, List.take_prefix _ _⟩
  rw [ne_eq, List.take_eq_nil_iff]
  exact fun h => h.elim (by omega) hne

theorem not_space_of_gt {b : UInt8} (h : 0x20 < b) : isCSpace b = false := by
  unfold isCSpace
  grind

theorem Token.notMem {max : Nat} {s : Str} (h : Token max s) : byte '|' ∉ s := fun hmem =>
  (h.plain _ hmem).2 rfl

/-- The nick and the channel of an OP_GRANT, whatever the nick. -/
theorem readOpGrant_payload {nick userhost chan : Str} (hnick : chanDoNickOk nick = true)
    (hhost : Token 224 userhost) (hchan : Token 64 chan) :
    (front nick = [] ∧ readOpGrant (Frame.opGrant nick userhost chan).payload = none) ∨
      (front nick = nick ∧
        readOpGrant (Frame.opGrant nick userhost chan).payload = some (nick.take 9, chan)) ∨
      front nick ≠ [] ∧ front nick ≠ nick ∧ ∃ v, v ≠ [] ∧ v.length ≤ 64 ∧ (∀ b ∈ v, 0x20 < b) ∧
        readOpGrant (Frame.opGrant nick userhost chan).payload = some ((front nick).take 9, v) := by
  obtain ⟨hne, hlen, hall⟩ := of_chanDoNickOk hnick
  -- the nick of a hostmask is cut at the bot's own limit
  have hmask {w : Str} (hw : w <+: nick) : maskNick w maxNick = w.take 9 := by
    have hstop : w.takeWhile (· ≠ byte '!') = w :=
      List.takeWhile_eq_self_iff.mpr fun b hb => by simpa using (hall b (hw.subset hb)).2.2
    rw [maskNick, hstop, trunc_of_ascii fun b hb => (hall b (hw.subset hb)).1]
    rfl
  have hpipe : pipe = [byte '|'] := by decide
  rcases front_cases nick with hself | ⟨tail, htail⟩
  · refine .inr (.inl ⟨hself, ?_⟩)
    have hbar : byte '|' ∉ nick := hself ▸ notMem_front nick
    have hfit : (nick ++ byte '!' :: userhost).length ≤ 255 := by
      have := hhost.le
      simp only [List.length_append, List.length_cons]
      omega
    have hwhole : byte '|' ∉ nick ++ byte '!' :: userhost := by
      simp [hbar, hhost.notMem, show byte '|' ≠ byte '!' by decide]
    have hword := word_all hchan.ne hchan.le fun b hb => not_space_of_gt (hchan.plain b hb).1
    have hstop : (nick ++ byte '!' :: userhost).takeWhile (· ≠ byte '!') = nick := by
      rw [List.takeWhile_append_of_pos fun b hb => by simpa using (hall b hb).2.2]
      simp
    rw [readOpGrant, hpipe, Frame.payload, sscanf_field (by simp) hfit hwhole, sscanf_pipe,
      sscanf, hword]
    simp only [sscanf, Conv.str]
    rw [maskNick, hstop, trunc_of_ascii fun b hb => (hall b hb).1]
    rfl
  · have hpayload : (Frame.opGrant nick userhost chan).payload =
        front nick ++ byte '|' :: (tail ++ byte '!' :: (userhost ++ byte '|' :: chan)) := by
      rw [Frame.payload]
      conv_lhs => rw [htail]
      simp
    by_cases hfront : front nick = []
    · refine .inl ⟨hfront, ?_⟩
      rw [readOpGrant, hpipe, hpayload, hfront, List.nil_append, sscanf_field_nil]
    · refine .inr (.inr ⟨hfront, fun heq => ?_, ?_⟩)
      · have hmem : byte '|' ∈ nick := by
          rw [htail]
          simp
        exact notMem_front nick (by rwa [heq])
      · have hsub : ∀ b ∈ tail, b ∈ nick := fun b hb => by
          rw [htail]
          simp [hb]
        have hgt : ∀ b ∈ tail ++ byte '!' :: (userhost ++ byte '|' :: chan), 0x20 < b := by
          intro b hb
          simp only [List.mem_append, List.mem_cons] at hb
          rcases hb with hb | rfl | hb | rfl | hb
          · exact (hall b (hsub b hb)).2.1
          · decide
          · exact (hhost.plain b hb).1
          · decide
          · exact (hchan.plain b hb).1
        obtain ⟨v, rest, hword, hv, hvlen, hpre⟩ := word_starts 64 (by decide) (by simp)
          (fun b hb => not_space_of_gt (hgt b hb))
          (isCharBoundary_one (fun b hb => (hall b (hsub b hb)).1) (by decide) (by
            obtain ⟨c, u, hcu⟩ := List.exists_cons_of_ne_nil hhost.ne
            have hhead := hhost.head
            rw [hcu] at hhead ⊢
            exact hhead))
        refine ⟨v, hv, hvlen, fun b hb => hgt b (hpre.subset hb), ?_⟩
        have hlen' : (front nick).length ≤ 255 := (front_isPrefix nick).length_le.trans (by omega)
        rw [readOpGrant, hpipe, hpayload, sscanf_field hfront hlen' (notMem_front nick),
          sscanf_pipe,
          sscanf, hword]
        simp only [sscanf, Conv.str]
        rw [hmask (front_isPrefix nick)]

/-- A nick that another field follows. -/
theorem sscanf_nick {max : Nat} {nick w rest : Str} {fmt : List Fmt} (hmax : 0 < max)
    (hnick : chanDoNickOk nick = true) (hw : w <+: nick) (hpipe : byte '|' ∉ w) (hne : w ≠ []) :
    sscanf (w ++ byte '|' :: rest) (.set max [byte '|'] :: fmt) =
      .s (w.take max) :: sscanf (w.drop max ++ byte '|' :: rest) fmt := by
  obtain ⟨-, -, hall⟩ := of_chanDoNickOk hnick
  rw [sscanf, show [byte '|'] = pipe by decide,
    setNot_nick hmax hne (fun b hb => (hall b (hw.subset hb)).1) hpipe]

/-- A nick is too long for its field: the delimiter is missing. -/
theorem sscanf_lit_long {max : Nat} {w rest : Str} {fmt : List Fmt} (hpipe : byte '|' ∉ w)
    (hlong : max < w.length) :
    sscanf (w.drop max ++ byte '|' :: rest) (.lit [byte '|'] :: fmt) = [] := by
  have hhead : w[max] ≠ byte '|' := fun heq => hpipe (heq ▸ List.getElem_mem hlong)
  rw [List.drop_eq_getElem_cons hlong, List.cons_append, sscanf, lit]
  simp [Ne.symm hhead]

/-- The nick and the channel of an INVITE_REQUEST, whatever the nick. -/
theorem inviteRequest_payload {nick chan : Str} (hnick : chanDoNickOk nick = true)
    (hchan : Token 64 chan) :
    let r := sscanf (Frame.inviteRequest nick chan).payload [.set 9 pipe, .lit pipe, .set 64 (str "\n")]
    ((front nick = [] ∨ 9 < (front nick).length) ∧ r.length ≤ 1) ∨
      (front nick = nick ∧ r = [.s nick, .s chan]) ∨
      front nick ≠ [] ∧ front nick ≠ nick ∧ (front nick).length ≤ 9 ∧
        ∃ v, v ≠ [] ∧ v.length ≤ 64 ∧ (∀ b ∈ v, 0x20 < b) ∧ r = [.s (front nick), .s v] := by
  obtain ⟨hne, hlen, hall⟩ := of_chanDoNickOk hnick
  rw [show pipe = [byte '|'] by decide]
  obtain ⟨rest', hsplit, hrest⟩ := front_append nick chan
  rw [Frame.payload, hsplit]
  by_cases hfront : front nick = []
  · refine .inl ⟨.inl hfront, ?_⟩
    rw [hfront, List.nil_append, sscanf_field_nil]
    simp
  · rw [sscanf_nick (by decide) hnick (front_isPrefix nick) (notMem_front nick) hfront]
    rcases Nat.lt_or_ge 9 (front nick).length with hlong | hshort
    · refine .inl ⟨.inr hlong, ?_⟩
      rw [sscanf_lit_long (notMem_front nick) hlong]
      simp
    · rw [List.take_of_length_le hshort, List.drop_eq_nil_of_le hshort, List.nil_append,
        sscanf_pipe]
      have hnl {v : Str} (hv : ∀ b ∈ v, 0x20 < b) : ∀ b ∈ v, b ∉ str "\n" := by
        intro b hb hmem
        obtain rfl : b = byte '\n' := by simpa [str] using hmem
        exact absurd (hv _ hb) (by decide)
      rcases hrest with ⟨hself, rfl⟩ | ⟨tail, htail, rfl⟩
      · refine .inr (.inl ⟨hself, ?_⟩)
        have hset : setNot 64 (str "\n") (rest' ++ []) = some (rest', []) :=
          setNot_append hchan.ne hchan.le (hnl fun b hb => (hchan.plain b hb).1) (by simp)
        rw [List.append_nil] at hset
        rw [sscanf, hset, hself]
        rfl
      · refine .inr (.inr ⟨hfront, fun heq => ?_, hshort, ?_⟩)
        · have hmem : byte '|' ∈ nick := by
            rw [htail]
            simp
          exact notMem_front nick (by rwa [heq])
        · have hsub : ∀ b ∈ tail, b ∈ nick := fun b hb => by
            rw [htail]
            simp [hb]
          have hgt : ∀ b ∈ tail ++ byte '|' :: chan, 0x20 < b := by
            intro b hb
            simp only [List.mem_append, List.mem_cons] at hb
            rcases hb with hb | rfl | hb
            · exact (hall b (hsub b hb)).2.1
            · decide
            · exact (hchan.plain b hb).1
          obtain ⟨v, rest, hset, hv, hvlen, hpre⟩ := setNot_starts 64 (by decide) (by simp)
            (hnl hgt) (isCharBoundary_one (fun b hb => (hall b (hsub b hb)).1) (by decide) hchan.head)
          refine ⟨v, hv, hvlen, fun b hb => hgt b (hpre.subset hb), ?_⟩
          rw [sscanf, hset]
          rfl

/-- The fields of a channel request, up to the nick as a field of width `max` reads
it. -/
theorem field_request {f : Fields} (max : Nat) (maskEnd : Str) (hmax : 0 < max)
    (hnick : chanDoNickOk f.nick = true) (hid : Token 63 f.id) (hkind : Token 15 f.kind)
    (hchan : Token 64 f.chan) (hrequester : Token 63 f.requester) :
    let r := sscanf f.payload (requestFmt max maskEnd)
    4 ≤ r.length ∧ field r 1 = f.kind ∧ field r 2 = f.chan ∧
      field r 4 = (front f.nick).take max := by
  obtain ⟨rest', hsplit, -⟩ := front_append f.nick f.mask
  rw [requestFmt, show pipe = [byte '|'] by decide, Fields.payload, hsplit,
    sscanf_field hid.ne hid.le hid.notMem, sscanf_pipe,
    sscanf_field hkind.ne hkind.le hkind.notMem, sscanf_pipe,
    sscanf_field hchan.ne hchan.le hchan.notMem, sscanf_pipe,
    sscanf_field hrequester.ne hrequester.le hrequester.notMem, sscanf_pipe]
  by_cases hfront : front f.nick = []
  · rw [hfront, List.nil_append, sscanf_field_nil]
    simp [field, Conv.str]
  · rw [sscanf_nick hmax hnick (front_isPrefix f.nick) (notMem_front f.nick) hfront]
    simp [field, Conv.str]

/-! ### Frames that are read right -/

theorem holdsOnly_of_chans {nick : Str} {b b' : BotState} (h : b'.chans = b.chans) :
    HoldsOnly nick b b' := by
  intro ci c' hc' x hx
  rw [h] at hc'
  exact .inr ⟨c', hc', hx⟩

theorem holdsOnly_of_service {nick : Str} {b b' : BotState} (h : SameButService b b') :
    HoldsOnly nick b b' := holdsOnly_of_chans (by rw [h.eq])

theorem holdsOnly_holdOp (b : BotState) (ci : Nat) (nick : Str) :
    HoldsOnly nick b (holdOp b ci nick) := by
  intro cj c' hc' x hx
  simp only [holdOp, withChan, List.getElem?_modify, Option.map_eq_map,
    Option.map_eq_some_iff] at hc'
  obtain ⟨c, hc, rfl⟩ := hc'
  have hfilter {h : Str × Int} {p : Str × Int → Bool} (hmem : h ∈ c.opGrantHeld.filter p) :
      h.1 = nick ∨ ∃ c, b.chans[cj]? = some c ∧ h ∈ c.opGrantHeld :=
    .inr ⟨c, hc, List.mem_of_mem_filter hmem⟩
  split at hx
  · dsimp only at hx
    split at hx
    · rcases List.mem_append.mp hx with hx | hx
      · exact hfilter hx
      · obtain rfl := List.mem_singleton.mp hx
        exact .inl rfl
    · exact hfilter hx
  · exact .inr ⟨c, hc, hx⟩

/-- The lines from the list name those it holds. -/
theorem RightPerson.of_held {nick : Str} {b b' : BotState} (hlines : NamesOnly (·.nick = nick) b b')
    (hheld : HoldsOnly nick b b') : RightPerson nick b b' := by
  refine ⟨hlines, hheld, fun b'' ci hchans => (namesOnly_grantHeldOps b'' ci).mono ?_⟩
  rintro x ⟨c', h, hc', hmem, rfl, -⟩
  rw [hchans] at hc'
  rcases hheld ci c' hc' h hmem with heq | ⟨c, hc, hold⟩
  · exact .inl heq
  · exact .inr ⟨c, h, hc, hold, rfl⟩

theorem rightPerson_opGrant {b : BotState} {payload nick : Str}
    (h : ∀ n chan, readOpGrant payload = some (n, chan) → n = nick) :
    RightPerson nick b (opGrant b payload) := by
  refine .of_held ?_ ?_
  · refine (namesOnly_opGrant b payload).mono ?_
    rintro x ⟨n, chan, ci, c, hread, -, -, rfl⟩
    exact h n chan hread
  · unfold opGrant
    split
    · exact holdsOnly_of_chans rfl
    · rename_i n chan hread
      obtain rfl := h n chan hread
      split
      · exact holdsOnly_of_chans rfl
      · split
        · exact holdsOnly_of_service (sameButService_ircPrintfNamed b _)
        · exact holdsOnly_holdOp b _ _

theorem namesOnly_inviteRequest (b : BotState) (payload : Str) :
    NamesOnly (fun x => ∃ nick chan,
      sscanf payload [.set 9 pipe, .lit pipe, .set 64 (str "\n")] = [nick, chan] ∧
        x = .invite nick.str chan.str) b (inviteRequest b payload) := by
  unfold inviteRequest
  split
  · rename_i nick chan hread
    split
    · split
      · exact (namesOnly_ircPrintfNamed b _).mono fun x hx => ⟨nick, chan, hread, hx⟩
      · exact .refl b
    · exact .refl b
  · exact .refl b

/-- A channel request the hub has forwarded invites the nick it carries. -/
theorem namesOnly_chanAction (b : BotState) (payload : Str) :
    NamesOnly (fun x =>
      let r := sscanf payload (requestFmt 9 pipe)
      ChanReq.fromToken (field r 1) = some .invite ∧ field r 4 ≠ [] ∧ x.nick = field r 4) b
      (chanAction P b payload) := by
  unfold chanAction
  dsimp only
  split
  · exact .refl b
  · split
    · rename_i k hk
      refine (namesOnly_accessService P b _ _ _ _ _ _).mono ?_
      rintro x ⟨rfl, n, hn, hne, rfl⟩
      obtain rfl := Option.some.inj hn
      exact ⟨hk, hne, rfl⟩
    · exact .refl b

/-! ### The handler of a frame -/

theorem run_opGrant (b : BotState) (nick userhost chan : Str) :
    (Frame.opGrant nick userhost chan).run P rest b =
      opGrant b (Frame.opGrant nick userhost chan).payload := rfl

theorem run_inviteRequest (b : BotState) (nick chan : Str) :
    (Frame.inviteRequest nick chan).run P rest b =
      inviteRequest b (Frame.inviteRequest nick chan).payload := rfl

theorem run_chanDo (b : BotState) (f : Fields) :
    (Frame.chanDo f).run P rest b = chanElectDo P b f.payload := by
  have hne : f.payload.isEmpty = false := by simp [Fields.payload]
  show (if f.payload.isEmpty then b else chanElectDo P b f.payload) = _
  rw [hne]
  rfl

theorem run_chanAction (b : BotState) (f : Fields) :
    (Frame.chanAction f).run P rest b = chanAction P b f.payload := rfl

/-- A frame that is read right names the requester. -/
theorem rightPerson_of_readable {x : Frame} (hx : x.WellFormed) (hread : x.Readable)
    (b : BotState) : RightPerson x.nick b (x.run P rest b) := by
  cases x with
  | opGrant nick userhost chan =>
      obtain ⟨hnick, hhost, hchan⟩ := hx
      rw [run_opGrant]
      refine rightPerson_opGrant fun n ch hsome => ?_
      rcases readOpGrant_payload hnick hhost hchan with ⟨-, hnone⟩ | ⟨hself, hwhole⟩ |
        ⟨hne, hcut, -⟩
      · rw [hnone] at hsome
        simp at hsome
      · rw [hwhole] at hsome
        obtain ⟨rfl, -⟩ : nick.take 9 = n ∧ chan = ch := by simpa using hsome
        rcases hread with hempty | ⟨-, hlen⟩
        · exact absurd (hself.symm.trans hempty) (of_chanDoNickOk hnick).1
        · exact List.take_of_length_le hlen
      · rcases hread with hempty | ⟨hself, -⟩
        · exact absurd hempty hne
        · exact absurd hself hcut
  | inviteRequest nick chan =>
      obtain ⟨hnick, hchan⟩ := hx
      rw [run_inviteRequest]
      refine .of_held ((namesOnly_inviteRequest b _).mono ?_)
        (holdsOnly_of_service (sameButService_inviteRequest b _))
      rintro x ⟨n, ch, hsome, rfl⟩
      rcases inviteRequest_payload hnick hchan with ⟨-, hshort⟩ | ⟨-, hwhole⟩ | ⟨hne, hcut, hlen, -⟩
      · rw [hsome] at hshort
        simp at hshort
      · rw [hwhole] at hsome
        obtain ⟨rfl, -⟩ : Conv.s nick = n ∧ Conv.s chan = ch := by simpa using hsome
        rfl
      · rcases hread with hempty | hself | hlong
        · exact absurd hempty hne
        · exact absurd hself hcut
        · omega
  | chanDo f =>
      obtain ⟨hnick, hid, hkind, hchan, hrequester⟩ := hx
      obtain ⟨-, hk, -, hn⟩ := field_request 31 (str "|\r\n") (by decide) hnick
        hid hkind hchan hrequester
      rw [run_chanDo]
      refine .of_held ((namesOnly_chanElectDo P b f.payload).mono ?_)
        (holdsOnly_of_service (sameButService_chanElectDo P b _))
      rintro x ⟨hok, hx⟩
      rw [chanDoFields, hk, hn] at *
      rcases hread with ⟨hop, hinvite⟩ | hempty | hself
      · rcases hx with ⟨heq, -⟩ | ⟨heq, -⟩
        · exact absurd heq hop
        · exact absurd heq hinvite
      · rw [hempty] at hok
        simp [chanDoNickOk] at hok
      · have hlen := (of_chanDoNickOk hnick).2.1
        rw [hself, List.take_of_length_le (by omega)] at hx
        rcases hx with ⟨-, -, rfl⟩ | ⟨-, rfl⟩ <;> rfl
  | chanAction f =>
      obtain ⟨hnick, hid, hkind, hchan, hrequester⟩ := hx
      obtain ⟨-, hk, -, hn⟩ := field_request 9 pipe (by decide) hnick
        hid hkind hchan hrequester
      rw [run_chanAction]
      refine .of_held ((namesOnly_chanAction P b f.payload).mono ?_)
        (holdsOnly_of_service (sameButService_chanAction P b _))
      rintro x ⟨htok, hne, hx⟩
      rw [hk] at htok
      rw [hn] at hne hx
      rcases hread with hkind | hempty | ⟨hself, hlen⟩
      · exact absurd htok hkind
      · rw [hempty] at hne
        simp at hne
      · rwa [hself, List.take_of_length_le hlen] at hx

/-! ### Frames that are not -/

/-- A bot that is opped in `chan`, and nothing else. -/
def opped (chan : Str) : BotState :=
  { connected := true, chans := [{ name := chan, status := .inside, iAmOpped := true }] }

theorem inChan_opped (chan : Str) :
    inChan (opped chan) chan = some (0, { name := chan, status := .inside, iAmOpped := true }) := by
  simp [inChan, find, opped, eqIc]

/-- A line of printable bytes is handed on. -/
theorem takesLine_of_plain {b : BotState} {body : Str} (hconn : b.connected = true)
    (hlen : body.length + 2 < maxBuffer) (hbody : ∀ c ∈ body, 0x20 ≤ c) :
    takesLine b (body ++ crlf) = true := by
  have hline : isSingleLine (body ++ crlf) = true := by
    have hplain : ∀ c ∈ body, ¬ ((c = 13 ∨ c = 10) ∨ c = 0) := by
      intro c hc
      have hge := hbody c hc
      rintro ((rfl | rfl) | rfl) <;> exact absurd hge (by decide)
    simpa [isSingleLine, crlf] using hplain
  simp only [takesLine, hconn, hline, Bool.true_and, Bool.and_true, decide_eq_true_eq,
    List.length_append]
  exact hlen

/-- The bot opped in `chan` hands on a line that names somebody there. -/
theorem newNamed_opped {chan nick : Str} {x : Named}
    (hx : x = .op chan nick ∨ x = .invite nick chan)
    (hchan : chan.length ≤ 64 ∧ ∀ c ∈ chan, 0x20 < c)
    (hnick : nick.length ≤ 30 ∧ ∀ c ∈ nick, 0x20 < c) :
    newNamed (opped chan) (ircPrintfNamed (opped chan) x) = [x] := by
  have hplain {a u z v : Str} (ha : ∀ c ∈ a ++ z, 0x20 ≤ c) (hu : ∀ c ∈ u, 0x20 < c)
      (hv : ∀ c ∈ v, 0x20 < c) : ∀ c ∈ a ++ u ++ z ++ v, 0x20 ≤ c := by
    intro c hc
    simp only [List.mem_append] at hc
    rcases hc with ((hc | hc) | hc) | hc
    · exact ha c (List.mem_append_left _ hc)
    · exact UInt8.le_of_lt (hu c hc)
    · exact ha c (List.mem_append_right _ hc)
    · exact UInt8.le_of_lt (hv c hc)
  have htakes : takesLine (opped chan) x.line = true := by
    rcases hx with rfl | rfl
    · refine takesLine_of_plain rfl ?_ (hplain (by decide +kernel) hchan.2 hnick.2)
      simp only [List.length_append, str, List.length_map, maxBuffer]
      have hlen : ("MODE ".toList.length, " +o ".toList.length) = (5, 4) := by decide
      simp only [Prod.mk.injEq] at hlen
      omega
    · refine takesLine_of_plain rfl ?_ (hplain (by decide +kernel) hnick.2 hchan.2)
      simp only [List.length_append, str, List.length_map, maxBuffer]
      have hlen : ("INVITE ".toList.length, " ".toList.length) = (7, 1) := by decide
      simp only [Prod.mk.injEq] at hlen
      omega
  rw [newNamed, ircPrintfNamed, if_pos htakes]
  simp [opped]

theorem not_rightPerson_of_mem {nick : Str} {b b' : BotState} {x : Named} (hx : x ∈ newNamed b b')
    (hne : x.nick ≠ nick) : ¬ RightPerson nick b b' :=
  fun h => hne (h.lines.newNamed x hx)

/-- A service request that invites `nick` does so in the channel the bot is opped in. -/
theorem accessService_opped {id chan nick mask : Str} (hchan : chan ≠ []) (hnick : nick ≠ []) :
    accessService P (opped chan) id .invite chan (some nick) (some mask) none =
      ircPrintfNamed (opped chan) (.invite nick chan) := by
  have hget : (find (opped chan) chan).bind (fun ci => (opped chan).chans[ci]?) =
      some { name := chan, status := .inside, iAmOpped := true } := by
    simp [find, opped, eqIc]
  have hfilter : (some nick).filter (!·.isEmpty) = some nick := by
    rw [Option.filter_some, if_pos (by simpa using hnick)]
  unfold accessService
  rw [hget, hfilter]
  simp [hchan]

theorem newNamed_chanDoneSend (b₀ b : BotState) (id : Str) (ok : Bool) (detail : Str) :
    newNamed b₀ (chanDoneSend b id ok detail) = newNamed b₀ b := by
  rw [newNamed, named_chanDoneSend, newNamed]

theorem bitchRefuses_opped (chan nick : Str) : bitchRefuses (opped chan) chan nick = false := by
  have hget : bitch (opped chan) 0 = false := by
    simp [bitch, Chancfg.get, opped, chanOverride, netDefaults, cset]
  have hfind : find (opped chan) chan = some 0 := by simp [find, opped, eqIc]
  simp [bitchRefuses, hfind, hget]

/-- A picked bot that is opped there serves an op or an invitation for a valid nick. -/
theorem newNamed_chanElectDo {payload chan nick : Str} (hchan : chan ≠ [])
    (hlen : 4 ≤ (chanDoFields payload).length)
    (hkind : field (chanDoFields payload) 1 = str "op" ∨
      field (chanDoFields payload) 1 = str "invite")
    (hfchan : field (chanDoFields payload) 2 = chan)
    (hfnick : field (chanDoFields payload) 4 = nick) (hok : chanDoNickOk nick = true) :
    ∃ x, (x = .op chan nick ∨ x = .invite nick chan) ∧
      newNamed (opped chan) (chanElectDo P (opped chan) payload) =
        newNamed (opped chan) (ircPrintfNamed (opped chan) x) := by
  have hcannot : chanElectCannot (opped chan) (field (chanDoFields payload) 1) chan = none := by
    rw [chanElectCannot, inChan_opped]
    rcases hkind with heq | heq <;> rw [heq] <;> rfl
  unfold chanDoFields at *
  unfold chanElectDo
  dsimp only
  rw [hfchan, hfnick, if_neg (by omega), hcannot]
  dsimp only
  rw [if_neg (by simp [hok])]
  rcases hkind with hop | hinvite
  · rw [hop, if_neg (by decide), if_pos rfl, chanDoOp, bitchRefuses_opped]
    exact ⟨_, .inl rfl, newNamed_chanDoneSend _ _ _ _ _⟩
  · have htok : ChanReq.fromToken (str "invite") = some .invite := by decide
    have hnick := (of_chanDoNickOk hok).1
    rw [hinvite, if_neg (by decide), if_neg (by decide), chanDoAccess, htok]
    dsimp only
    rw [if_neg (by simp), accessService_opped P hchan hnick]
    exact ⟨_, .inr rfl, newNamed_chanDoneSend _ _ _ _ _⟩

theorem chanDoNickOk_front {nick : Str} (h : chanDoNickOk nick = true) (hne : front nick ≠ []) :
    chanDoNickOk (front nick) = true := by
  have hpre := front_isPrefix nick
  have hhead : (front nick).head? = nick.head? := by
    obtain ⟨t, ht⟩ := hpre
    conv_rhs => rw [← ht]
    rw [List.head?_append_of_ne_nil _ hne]
  simp only [chanDoNickOk, Bool.and_eq_true, Bool.not_eq_true', List.isEmpty_eq_false_iff,
    decide_eq_true_eq, List.all_eq_true] at h ⊢
  obtain ⟨⟨⟨-, hlen⟩, hfirst⟩, hall⟩ := h
  rw [hhead]
  exact ⟨⟨⟨hne, hpre.length_le.trans hlen⟩, hfirst⟩, fun b hb => hall b (hpre.subset hb)⟩

/-- Cut at nine bytes, a nick that is not read whole is another one. -/
theorem take_nine_ne {nick : Str} (h : ¬ (front nick = nick ∧ nick.length ≤ 9)) :
    (front nick).take 9 ≠ nick := by
  by_cases hself : front nick = nick
  · rw [hself]
    intro heq
    have hlen := congrArg List.length heq
    rw [List.length_take] at hlen
    exact h ⟨hself, by omega⟩
  · exact take_front_ne hself 9

theorem opGrant_opped {payload chan nick : Str} (hread : readOpGrant payload = some (nick, chan)) :
    opGrant (opped chan) payload = ircPrintfNamed (opped chan) (.op chan nick) := by
  rw [opGrant, hread]
  dsimp only
  rw [inChan_opped]
  rfl

/-- A frame that is not read right names somebody else, in some state. -/
theorem exists_not_rightPerson {x : Frame} (hx : x.WellFormed) (hread : ¬ x.Readable) :
    ∃ b, ¬ RightPerson x.nick b (x.run P rest b) := by
  -- the nick read is a part of the requester's, and the channel is one the bot may be in
  have hwrong {chan n nick : Str} (hok : chanDoNickOk nick = true) (hn : n <+: nick) (hne : n ≠ nick)
      (hchan : chan.length ≤ 64 ∧ ∀ c ∈ chan, 0x20 < c) {x' : Named}
      (hx' : x' = .op chan n ∨ x' = .invite n chan) {b' : BotState}
      (hb' : newNamed (opped chan) b' = newNamed (opped chan) (ircPrintfNamed (opped chan) x')) :
      ¬ RightPerson nick (opped chan) b' := by
    obtain ⟨-, hlen, hall⟩ := of_chanDoNickOk hok
    refine not_rightPerson_of_mem (x := x') ?_ ?_
    · rw [hb', newNamed_opped hx' hchan
        ⟨hn.length_le.trans hlen, fun c hc => (hall c (hn.subset hc)).2.1⟩]
      exact List.mem_singleton_self _
    · rcases hx' with rfl | rfl <;> exact hne
  have hnine (nick : Str) : (front nick).take 9 <+: nick :=
    (List.take_prefix 9 _).trans (front_isPrefix nick)
  have htoken {chan : Str} (h : Token 64 chan) : chan.length ≤ 64 ∧ ∀ c ∈ chan, 0x20 < c :=
    ⟨h.le, fun c hc => (h.plain c hc).1⟩
  cases x with
  | opGrant nick userhost chan =>
      obtain ⟨hnick, hhost, hchan⟩ := hx
      obtain ⟨hempty, hlong⟩ := not_or.mp hread
      rcases readOpGrant_payload hnick hhost hchan with ⟨hnil, -⟩ | ⟨hself, hwhole⟩ |
        ⟨-, -, v, hv, hvlen, hvall, hcut⟩
      · exact absurd hnil hempty
      · have hne := take_nine_ne hlong
        rw [hself] at hne
        refine ⟨opped chan, hwrong hnick (List.take_prefix 9 _) hne (htoken hchan) (.inl rfl) ?_⟩
        rw [run_opGrant, opGrant_opped hwhole]
      · refine ⟨opped v, hwrong hnick (hnine nick) (take_nine_ne hlong) ⟨hvlen, hvall⟩ (.inl rfl) ?_⟩
        rw [run_opGrant, opGrant_opped hcut]
  | inviteRequest nick chan =>
      obtain ⟨hnick, hchan⟩ := hx
      simp only [Frame.Readable, not_or, not_lt] at hread
      obtain ⟨hempty, hcut, hshort⟩ := hread
      rcases inviteRequest_payload hnick hchan with ⟨hnone, -⟩ | ⟨hself, -⟩ |
        ⟨-, -, -, v, hv, hvlen, hvall, hr⟩
      · rcases hnone with hnil | hlong
        · exact absurd hnil hempty
        · omega
      · exact absurd hself hcut
      · refine ⟨opped v, hwrong hnick (front_isPrefix nick) hcut ⟨hvlen, hvall⟩ (.inr rfl) ?_⟩
        rw [run_inviteRequest, inviteRequest, hr]
        dsimp only [Conv.str]
        rw [inChan_opped]
        rfl
  | chanDo f =>
      obtain ⟨hnick, hid, hkind, hchan, hrequester⟩ := hx
      simp only [Frame.Readable, not_or, not_and_or, not_not] at hread
      obtain ⟨hserved, hempty, hcut⟩ := hread
      obtain ⟨hlen, hk, hc, hn⟩ := field_request 31 (str "|\r\n") (by decide)
        hnick hid hkind hchan hrequester
      have hshort := (front_isPrefix f.nick).length_le.trans (of_chanDoNickOk hnick).2.1
      rw [List.take_of_length_le (by omega)] at hn
      obtain ⟨x', hx', hnamed⟩ :=
        newNamed_chanElectDo P hchan.ne hlen (by rwa [chanDoFields, hk]) hc hn
        (chanDoNickOk_front hnick hempty)
      refine ⟨opped f.chan, hwrong hnick (front_isPrefix f.nick) hcut (htoken hchan) hx' ?_⟩
      rw [run_chanDo, hnamed]
  | chanAction f =>
      obtain ⟨hnick, hid, hkind, hchan, hrequester⟩ := hx
      simp only [Frame.Readable, not_or, not_not] at hread
      obtain ⟨htok, hempty, hlong⟩ := hread
      obtain ⟨hlen, hk, hc, hn⟩ := field_request 9 pipe (by decide)
        hnick hid hkind hchan hrequester
      have hne : (front f.nick).take 9 ≠ [] := by simp [hempty]
      refine ⟨opped f.chan, hwrong hnick (hnine f.nick) (take_nine_ne hlong) (htoken hchan) (.inr rfl) ?_⟩
      rw [run_chanAction, chanAction]
      rw [if_neg (by omega), hk, htok, hc, hn]
      dsimp only
      rw [accessService_opped P hchan.ne hne]

/-- **A frame names the right person in every state exactly if the handler can read
its nick.** -/
theorem rightPerson_iff {x : Frame} (hx : x.WellFormed) :
    (∀ b, RightPerson x.nick b (x.run P rest b)) ↔ x.Readable := by
  constructor
  · intro hall
    by_contra hread
    obtain ⟨b, hb⟩ := exists_not_rightPerson P rest hx hread
    exact hb (hall b)
  · exact fun hread b => rightPerson_of_readable P rest hx hread b

/-- An OP_GRANT for a nick of nine bytes. -/
theorem rightPerson_iff_short :
    let x := Frame.opGrant (str "ninebytes") (str "u@h.net") (str "#c")
    (∀ b, RightPerson (str "ninebytes") b (x.run .clear (fun _ _ b => b) b)) ↔ x.Readable := by
  have hx : (Frame.opGrant (str "ninebytes") (str "u@h.net") (str "#c")).WellFormed :=
    ⟨by decide, ⟨by decide, by decide, by decide +kernel, by decide +kernel⟩,
      ⟨by decide, by decide, by decide +kernel, by decide +kernel⟩⟩
  exact rightPerson_iff .clear (fun _ _ b => b) hx

/-- An OP_GRANT for `tencharsss` ops `tencharss`. -/
theorem not_rightPerson :
    ¬ ∀ (P : Primitives) (rest : UInt8 → Str → BotState → BotState) (b : BotState) (x : Frame),
      x.WellFormed → RightPerson x.nick b (x.run P rest b) := by
  intro hall
  let x := Frame.opGrant (str "tencharsss") (str "u@h.net") (str "#c")
  have hx : x.WellFormed :=
    ⟨by decide, ⟨by decide, by decide, by decide +kernel, by decide +kernel⟩,
      ⟨by decide, by decide, by decide +kernel, by decide +kernel⟩⟩
  have hright := (hall .clear (fun _ _ b => b) (opped (str "#c")) x hx).lines.newNamed
    (.op (str "#c") (str "tencharss")) (by decide)
  exact absurd hright (by decide)

end IrcBot.RequestNames
