/-
# Parked queries (`commands.rs`)

`admins`, `opers` and `match` ask the hub for its last-seen times. The command is parked, with the
chat and the reply key that it came with, until the hub has answered or three seconds are over.

* `finish_spec` — a parked command is answered where it came from, or not at all.
* `parked_queries` — over a run: once for each parked command, four at a time, and the caller's own
  replies go on as before.
-/
import IrcBot.Dcc
import IrcBot.HubSync
import IrcBot.UserCommands

namespace IrcBot.ActivityQueries

open Cstr Chancfg Sendq Dcc HubSync UserCommands

/-! ### Queries -/

/-- `ActqKind`. -/
inductive ActqKind where
  | admins
  | opers
  | matching
deriving DecidableEq, Repr

structure ActivityQuery where
  id : Str
  kind : ActqKind
  /-- match: the name, or "*". -/
  arg : Str
  nick : Str
  /-- The chat it came from, with the token of the chat. -/
  dcc : Option (Nat × Nat)
  a2r : A2rCtx
  deadline : Int

/-- What an answer is for and where it goes. -/
structure Ticket where
  nick : Str
  kind : ActqKind
  arg : Str
  dcc : Option (Nat × Nat)
  a2r : A2rCtx

def ActivityQuery.ticket (q : ActivityQuery) : Ticket := ⟨q.nick, q.kind, q.arg, q.dcc, q.a2r⟩

/-- What has happened to commands and chats; a command that was answered at once has no query. -/
inductive Trace where
  | parked (q : ActivityQuery)
  | rendered (q : Option ActivityQuery) (ticket : Ticket)
  | dropped (q : ActivityQuery)
  /-- A chat came into a slot, with a token. -/
  | chat (i tok : Nat)

structure Asking where
  bot : BotState := {}
  replies : Replies := {}
  queries : List ActivityQuery := []
  /-- A history, for the statements only. -/
  trace : List Trace := []

def Asking.note (c : Asking) (t : Trace) : Asking := { c with trace := c.trace ++ [t] }

/-! ### Listings -/

section Render

-- `gmTime` is the text of a time, in UTC
variable (P : Primitives) (gmTime : Int → Str)

def rule : Str := str "+----------------------------------------------------------------------------"
def foot : Str := str "\x60----------------------------------------------------------------------------"

def lastSeenStr (ts : Int) : Str := if ts = 0 then str "never" else gmTime ts

/-- `reply_row_cap`: a chat has no limit. -/
def replyRowCap (r : Replies) : Option Nat :=
  if r.dccReply.isSome then none else some botStatusMaxLines

/-- The rows that are shown, and how many are not. -/
def capRows (cap : Option Nat) (rows : List Str) : List Str × Nat :=
  match cap with
  | none => (rows, 0)
  | some n => (rows.take n, rows.length - n)

/-- `reply_rows_omitted`. -/
def replyRowsOmitted (omitted : Nat) (what : Str) : List Str :=
  if 0 < omitted then
    [str "| (+" ++ decNat omitted ++ str " more " ++ what ++ str " not shown -- ask over 'dcc' for the full list)"]
  else []

def padRight (s : Str) (w : Nat) : Str := s ++ List.replicate (w - s.length) (byte ' ')

/-- The lines of `cmd_list_users`. -/
def listUsers (b : BotState) (cap : Option Nat) (typ : UInt8) : List Str :=
  let what := if typ = byte 'a' then str "admins" else str "opers"
  let users := b.userRecords.filter (·.typ == typ)
  let nameW := (users.map (·.name.length)).foldl max 8
  let rows := capRows cap (users.map fun u =>
    str "| " ++ padRight u.name nameW ++ str "  key " ++ userKeyFp P u ++ str "  (last seen: " ++
      lastSeenStr gmTime u.lastSeen ++ str ")" ++ if u.isActive then [] else str " [deleted]")
  [str "| ircbot " ++ botVersion ++ str " " ++ what, rule] ++ rows.1 ++
    (if rows.1.isEmpty then [str "| (no " ++ what ++ str ")"] else []) ++
    replyRowsOmitted rows.2 what ++ [foot]

/-- The rows of `cmd_match` for a user and the masks. -/
def userRows (b : BotState) (u : UserRecord) : List Str :=
  (str "| [" ++ [u.typ] ++ str "] " ++ padRight u.name 20 ++ str "  key " ++ userKeyFp P u ++
    str "  (last seen: " ++ lastSeenStr gmTime u.lastSeen ++ str ")") ::
    ((b.maskRecords.filter fun m => m.isActive && m.uuid == u.uuid).map fun m =>
      str "|   " ++ m.mask ++ str "  (last used: " ++ lastSeenStr gmTime m.lastUsed ++ str ")")

/-- The rows of `cmd_match` for a trusted bot. -/
def botRows (b : BotState) (tb : TrustedBot) : List Str :=
  [str "| [b] " ++ padRight tb.nick 20 ++ str "  (last seen: " ++ lastSeenStr gmTime tb.ts ++ str ")"] ++
    (if tb.mask.isEmpty then [] else [str "|   mask: " ++ tb.mask]) ++
    (if tb.uuid.isEmpty then [] else [str "|   uuid: " ++ tb.uuid]) ++
    [if tb.hasPub then str "|   key : " ++ keyFingerprint P tb.pubKey else str "|   key : (none on file)"] ++
    [str "|   hub : " ++
      if b.link.connected && !b.link.currentHub.isEmpty then b.link.currentHub else str "none"]

/-- The lines of `cmd_match`. -/
def matchRows (b : BotState) (cap : Option Nat) (arg1 : Str) : List Str :=
  let all := arg1 = str "*"
  let users := b.userRecords.filter fun u => (decide all || eqIc u.name arg1) && u.isActive
  let rows := capRows cap (users.flatMap (userRows P gmTime b))
  let others :=
    if rows.1.isEmpty && !decide all then
      match b.trustedBots.find? fun t => eqIc t.nick arg1 with
      | some tb => botRows P gmTime b tb
      | none => [str "| unknown user: " ++ arg1]
    else []
  [str "| ircbot " ++ botVersion ++ str " match" ++ if all then str " *" else [], rule] ++ rows.1 ++
    others ++ replyRowsOmitted rows.2 (str "records") ++ [foot]

def renderRows (c : Asking) (kind : ActqKind) (arg : Str) : List Str :=
  let cap := replyRowCap c.replies
  match kind with
  | .matching => matchRows P gmTime c.bot cap arg
  | .admins => listUsers P gmTime c.bot cap (byte 'a')
  | .opers => listUsers P gmTime c.bot cap (byte 'o')

/-- Where the replies of a command go now. -/
def context (r : Replies) : Option (Nat × Nat) × A2rCtx :=
  (r.dccReply.bind fun i => r.dcc[i]?.map fun s => (i, s.dccToken), r.a2r)

/-- `activity_render`. -/
def activityRender (c : Asking) (q : Option ActivityQuery) (nick : Str) (kind : ActqKind)
    (arg : Str) : Asking :=
  let replies := (renderRows P gmTime c kind arg).foldl
    (fun r row => printf P r (str "PRIVMSG " ++ nick ++ str " :" ++ row ++ crlf)) c.replies
  { c with replies }.note
    (.rendered q ⟨nick, kind, arg, (context c.replies).1, (context c.replies).2⟩)

/-! ### Parking -/

/-- What the hub is asked; `none` when it could add nothing. -/
def activityWhat (b : BotState) (kind : ActqKind) (arg : Str) : Option Str :=
  match kind with
  | .admins | .opers => some (str "users")
  | .matching =>
      if arg = str "*" then some (str "masks|*")
      else
        (b.userRecords.find? fun u => u.isActive && eqIc u.name arg).map fun u => str "masks|" ++ u.uuid

/-- `activity_park`, with the eight random bytes of the id: false when the command is to be answered
now. -/
def activityPark (c : Asking) (nick : Str) (kind : ActqKind) (arg : Str) (rnd : Option Str) :
    Bool × Asking :=
  if !c.bot.link.authenticated || !c.bot.link.sock || maxActivityQueries ≤ c.queries.length ||
      a2NickMax ≤ nick.length || 64 ≤ arg.length then (false, c)
  else
    match activityWhat c.bot kind arg, rnd with
    | some what, some rnd =>
        let id := rnd.flatMap B2.hexByte
        let sent := sendFrame c.bot cmdActivityQuery (id ++ str "|" ++ what)
        let c := { c with bot := sent.2 }
        if !sent.1 then (false, c)
        else
          let q : ActivityQuery :=
            { id, kind, arg, nick
              dcc := (context c.replies).1
              a2r := (context c.replies).2
              deadline := c.bot.now + activityQueryTimeout }
          (true, { c with queries := c.queries ++ [q] }.note (.parked q))
    | _, _ => (false, c)

/-- `activity_run`. -/
def activityRun (c : Asking) (nick : Str) (kind : ActqKind) (arg : Str)
    (rnd : Option Str) : Asking :=
  match activityPark c nick kind arg rnd with
  | (true, c) => c
  | (false, c) => activityRender P gmTime c none nick kind arg

/-! ### Answers -/

/-- The chat that the command came from is not open any more. -/
def dccGone (c : Asking) (q : ActivityQuery) : Bool :=
  q.dcc.any fun (i, tok) => (c.replies.dcc[i]?).all fun s => s.phase ≠ .opened || s.dccToken ≠ tok

/-- `activity_finish`. -/
def activityFinish (c : Asking) (q : ActivityQuery) : Asking :=
  if dccGone c q then c.note (.dropped q)
  else
    let savedA2r := c.replies.a2r
    let savedDcc := c.replies.dccReply
    let c := { c with replies := { c.replies with a2r := q.a2r, dccReply := q.dcc.map (·.1) } }
    let c := activityRender P gmTime c (some q) q.nick q.kind q.arg
    { c with replies := { c.replies with a2r := savedA2r, dccReply := savedDcc } }

/-- `activity_merge`. -/
def activityMerge (slot : Int) (tsS : Str) (t : Int) : Int :=
  match parseI64 tsS with
  | none => slot
  | some ts => if 0 < ts ∧ ts ≤ t + activityMaxFuture ∧ slot < ts then ts else slot

/-- `rfind`. -/
def rfind (c : UInt8) (s : Str) : Option Nat :=
  (s.reverse.findIdx? (· == c)).map fun i => s.length - 1 - i

/-- One line of a reply: the uuid is field 1, and the time is always the last field. -/
def activityLine (t : Int) (b : BotState) (text : Str) : BotState :=
  match rfind (byte '|') text with
  | none => b
  | some last =>
      if text.length < 2 + 36 + 2 ∨ text[1]? ≠ some (byte '|') ∨ last < 2 + 36 then b
      else if !isCharBoundary text 2 || !isCharBoundary text 38 then b
      else
        let uuid := (text.drop 2).take 36
        let ts := text.drop (last + 1)
        if text.head? = some (byte 'a') ∧ last = 38 then
          { b with userRecords := b.userRecords.map fun u =>
              if u.uuid == uuid then { u with lastSeen := activityMerge u.lastSeen ts t } else u }
        else if text.head? = some (byte 'm') ∧ text[38]? = some (byte '|') ∧ 39 < last then
          let mask := (text.take last).drop 39
          { b with maskRecords := b.maskRecords.map fun m =>
              if m.uuid == uuid && eqIc m.mask mask then
                { m with lastUsed := activityMerge m.lastUsed ts t }
              else m }
        else b

/-- The id of a reply, what follows it, and the lines. -/
def replyHead (payload : Str) : Option (Str × Str × List Str) :=
  match splitOn (byte '\n') payload with
  | [] => none
  | head :: lines => (splitOnce (byte '|') head).map fun (id, more) => (id, more, lines)

/-- `activity_reply`. -/
def activityReply (c : Asking) (payload : Str) : Asking :=
  match replyHead payload with
  | none => c
  | some (id, more, lines) =>
      if activityReqIdMax < id.length then c
      else
        match c.queries.findIdx? (·.id == id) with
        | none => c
        | some qi =>
            let c := { c with bot := lines.foldl (activityLine c.bot.now) c.bot }
            if more ≠ str "0" then c
            else
              match c.queries[qi]? with
              | none => c
              | some q => activityFinish P gmTime { c with queries := c.queries.eraseIdx qi } q

/-- The loop of `activity_tick`; each round takes out a query. -/
def tickLoop (t : Int) : Nat → Asking → Asking
  | 0, c => c
  | n + 1, c =>
      match (c.queries.findIdx? fun q => decide (q.deadline ≤ t)).bind fun qi =>
          c.queries[qi]?.map fun q => (qi, q) with
      | none => c
      | some (qi, q) =>
          tickLoop t n (activityFinish P gmTime { c with queries := c.queries.eraseIdx qi } q)

/-- `activity_tick`. -/
def activityTick (c : Asking) (t : Int) : Asking := tickLoop P gmTime t c.queries.length c

/-! ### What an answer does -/

/-- The query that a command was parked as and that is over. -/
def Trace.finished : Trace → Option ActivityQuery
  | .rendered q _ => q
  | .dropped q => some q
  | .parked _ => none
  | .chat _ _ => none

/-- From `c` to `c'` the queries `qs` have been answered, or dropped: each once, each in the context
it came with, and each in its own chat if it came from one. The caller's context is as it was. -/
structure Answers (c c' : Asking) (qs : List ActivityQuery) : Prop where
  queries : (qs ++ c'.queries).Perm c.queries
  trace : ∃ new, c'.trace = c.trace ++ new ∧ new.filterMap Trace.finished = qs ∧
    ∀ x ∈ new, ∃ q, x = .dropped q ∨ x = .rendered (some q) q.ticket
  reply : c'.replies.dccReply = c.replies.dccReply
  a2r : c'.replies.a2r = c.replies.a2r
  same : ∀ i : Nat, (c'.replies.dcc[i]?).map chatOf = (c.replies.dcc[i]?).map chatOf
  others : ∀ i : Nat, c'.replies.dcc[i]? ≠ c.replies.dcc[i]? → ∃ q ∈ qs, ∃ s,
    c.replies.dcc[i]? = some s ∧ s.phase = .opened ∧ q.dcc = some (i, s.dccToken)

theorem Answers.refl (c : Asking) : Answers c c [] := by
  constructor
  · exact .refl _
  · refine ⟨[], (List.append_nil _).symm, rfl, ?_⟩
    intro x hx
    cases hx
  · rfl
  · rfl
  · intro i
    rfl
  · intro i h
    exact absurd rfl h

theorem Answers.trans {c c' c'' : Asking} {qs qs' : List ActivityQuery} (h : Answers c c' qs)
    (h' : Answers c' c'' qs') : Answers c c'' (qs ++ qs') := by
  obtain ⟨new, htrace, hfinished, hnew⟩ := h.trace
  obtain ⟨new', htrace', hfinished', hnew'⟩ := h'.trace
  constructor
  · rw [List.append_assoc]
    exact (h'.queries.append_left qs).trans h.queries
  · refine ⟨new ++ new', ?_, ?_, ?_⟩
    · rw [htrace', htrace, List.append_assoc]
    · rw [List.filterMap_append, hfinished, hfinished']
    · intro x hx
      rcases List.mem_append.mp hx with hx | hx
      · exact hnew x hx
      · exact hnew' x hx
  · exact h'.reply.trans h.reply
  · exact h'.a2r.trans h.a2r
  · intro i
    exact (h'.same i).trans (h.same i)
  · intro i hne
    by_cases hfirst : c'.replies.dcc[i]? = c.replies.dcc[i]?
    · rw [← hfirst] at hne
      obtain ⟨q, hq, s, hs, hopen, hdcc⟩ := h'.others i hne
      exact ⟨q, List.mem_append_right qs hq, s, hfirst ▸ hs, hopen, hdcc⟩
    · obtain ⟨q, hq, hrest⟩ := h.others i hfirst
      exact ⟨q, List.mem_append_left qs' hq, hrest⟩

theorem foldl_printf (rows : List Str) (nick : Str) : ∀ r : Replies,
    SameChats r (rows.foldl
      (fun r row => printf P r (str "PRIVMSG " ++ nick ++ str " :" ++ row ++ crlf)) r) := by
  induction rows with
  | nil =>
      intro r
      exact .refl r
  | cons row rows ih =>
      intro r
      exact (printf_frame P r _).trans (ih _)

/-- A listing notes what it is for and where its replies go, and writes no chat but the current
one. -/
theorem render_spec (c : Asking) (q : Option ActivityQuery) (nick : Str) (kind : ActqKind)
    (arg : Str) :
    (activityRender P gmTime c q nick kind arg).bot = c.bot ∧
    (activityRender P gmTime c q nick kind arg).queries = c.queries ∧
    (activityRender P gmTime c q nick kind arg).trace = c.trace ++
      [.rendered q ⟨nick, kind, arg, (context c.replies).1, (context c.replies).2⟩] ∧
    SameChats c.replies (activityRender P gmTime c q nick kind arg).replies :=
  ⟨rfl, rfl, rfl, foldl_printf P (renderRows P gmTime c kind arg) nick c.replies⟩

theorem not_dccGone {c : Asking} {q : ActivityQuery} (h : ¬ dccGone c q = true) {i tok : Nat}
    (hdcc : q.dcc = some (i, tok)) :
    ∃ s, c.replies.dcc[i]? = some s ∧ s.phase = .opened ∧ s.dccToken = tok := by
  rw [dccGone, hdcc, Option.any_some] at h
  dsimp only at h
  cases hs : c.replies.dcc[i]? with
  | none =>
      rw [hs] at h
      exact absurd rfl h
  | some s =>
      rw [hs, Option.all_some] at h
      simp only [ne_eq, Bool.or_eq_true, decide_eq_true_eq, not_or, not_not] at h
      exact ⟨s, rfl, h.1, h.2⟩

/-- A parked command is over: without an answer, or in the context it came with. -/
theorem finish_trace (c : Asking) (q : ActivityQuery) :
    (dccGone c q = true ∧ activityFinish P gmTime c q = c.note (.dropped q)) ∨
    (¬ dccGone c q = true ∧
      (activityFinish P gmTime c q).trace = c.trace ++ [.rendered (some q) q.ticket]) := by
  unfold activityFinish
  split
  · rename_i hgone
    exact .inl ⟨hgone, rfl⟩
  · rename_i hgone
    refine .inr ⟨hgone, ?_⟩
    dsimp only
    have hdcc : (context { c.replies with a2r := q.a2r, dccReply := q.dcc.map (·.1) }).1 = q.dcc := by
      unfold context
      cases hd : q.dcc with
      | none => rfl
      | some d =>
          obtain ⟨i, tok⟩ := d
          obtain ⟨s, hs, -, rfl⟩ := not_dccGone hgone hd
          simp [hs]
    rw [(render_spec P gmTime _ (some q) q.nick q.kind q.arg).2.2.1, hdcc]
    rfl

/-- **A parked command is answered where it came from**, or not at all. -/
theorem finish_spec (c : Asking) (q : ActivityQuery) {qi : Nat} (hq : c.queries[qi]? = some q) :
    Answers c (activityFinish P gmTime { c with queries := c.queries.eraseIdx qi } q) [q] ∧
      (activityFinish P gmTime { c with queries := c.queries.eraseIdx qi } q).bot = c.bot ∧
      (activityFinish P gmTime { c with queries := c.queries.eraseIdx qi } q).queries =
        c.queries.eraseIdx qi := by
  obtain ⟨hlt, rfl⟩ := List.getElem?_eq_some_iff.mp hq
  have hperm : (c.queries[qi] :: c.queries.eraseIdx qi).Perm c.queries :=
    List.getElem_cons_eraseIdx_perm hlt
  generalize c.queries[qi] = q at hperm ⊢
  rcases finish_trace P gmTime { c with queries := c.queries.eraseIdx qi } q with
    ⟨-, heq⟩ | ⟨hgone, htrace⟩
  · rw [heq]
    refine ⟨?_, rfl, rfl⟩
    constructor
    · exact hperm
    · refine ⟨[.dropped q], rfl, rfl, ?_⟩
      intro x hx
      exact ⟨_, .inl (List.mem_singleton.mp hx)⟩
    · rfl
    · rfl
    · intro i
      rfl
    · intro i h
      exact absurd rfl h
  · have hnot : dccGone { c with queries := c.queries.eraseIdx qi } q = false :=
      Bool.eq_false_iff.mpr hgone
    obtain ⟨hbot, hqueries, -, hchats⟩ := render_spec P gmTime
      { c with
        queries := c.queries.eraseIdx qi
        replies := { c.replies with a2r := q.a2r, dccReply := q.dcc.map (·.1) } }
      (some q) q.nick q.kind q.arg
    unfold activityFinish at htrace ⊢
    rw [hnot] at htrace ⊢
    refine ⟨?_, hbot, hqueries⟩
    constructor
    · exact hqueries ▸ hperm
    · refine ⟨_, htrace, rfl, ?_⟩
      intro x hx
      exact ⟨q, .inr (List.mem_singleton.mp hx)⟩
    · rfl
    · rfl
    · exact hchats.same
    · intro i hne
      have hreply : q.dcc.map (·.1) = some i := by
        by_contra hother
        exact hne (hchats.others i hother)
      obtain ⟨⟨j, tok⟩, hd, rfl⟩ := Option.map_eq_some_iff.mp hreply
      obtain ⟨s, hs, hphase, rfl⟩ := not_dccGone hgone hd
      exact ⟨q, List.mem_singleton_self q, s, hs, hphase, hd⟩

theorem Answers.withBot {c c' : Asking} {qs : List ActivityQuery} (h : Answers c c' qs)
    (bot : BotState) : Answers c { c' with bot } qs :=
  ⟨h.queries, h.trace, h.reply, h.a2r, h.same, h.others⟩

/-- What the lines and the end of a parked command keep, a reply of the hub keeps. -/
theorem reply_keeps {I : Asking → Prop}
    (hlines : ∀ (c : Asking) (lines : List Str), I c →
      I { c with bot := lines.foldl (activityLine c.bot.now) c.bot })
    (hfinish : ∀ c qi q, c.queries[qi]? = some q → I c →
      I (activityFinish P gmTime { c with queries := c.queries.eraseIdx qi } q))
    {c : Asking} (h : I c) (payload : Str) : I (activityReply P gmTime c payload) := by
  unfold activityReply
  split
  · exact h
  · split
    · exact h
    · split
      · exact h
      · dsimp only
        split
        · exact hlines c _ h
        · split
          · exact hlines c _ h
          · rename_i q hq
            exact hfinish { c with bot := _ } _ q hq (hlines c _ h)

/-- What holds when a parked command is over, the timeouts keep. -/
theorem tickLoop_keeps {I : Asking → Prop}
    (hfinish : ∀ c qi q, c.queries[qi]? = some q → I c →
      I (activityFinish P gmTime { c with queries := c.queries.eraseIdx qi } q))
    (t : Int) (n : Nat) : ∀ c, I c → I (tickLoop P gmTime t n c) := by
  induction n with
  | zero =>
      intro c h
      exact h
  | succ n ih =>
      intro c h
      unfold tickLoop
      split
      · exact h
      · rename_i qi q hsome
        obtain ⟨j, -, hj⟩ := Option.bind_eq_some_iff.mp hsome
        obtain ⟨q', hq', heq⟩ := Option.map_eq_some_iff.mp hj
        obtain ⟨rfl, rfl⟩ := Prod.mk.inj heq
        exact ih _ (hfinish c j q' hq' h)

/-- A reply answers the query of its id, if it is the last one, and no other. -/
theorem reply_spec (c : Asking) (payload : Str) :
    ∃ qs, Answers c (activityReply P gmTime c payload) qs := by
  refine reply_keeps P gmTime (I := fun c' => ∃ qs, Answers c c' qs) ?_ ?_ ⟨[], .refl c⟩ payload
  · rintro c' lines ⟨qs, h⟩
    exact ⟨qs, h.withBot _⟩
  · rintro c' qi q hq ⟨qs, h⟩
    exact ⟨qs ++ [q], h.trans (finish_spec P gmTime c' q hq).1⟩

theorem tick_spec (c : Asking) (t : Int) : ∃ qs, Answers c (activityTick P gmTime c t) qs := by
  refine tickLoop_keeps P gmTime (I := fun c' => ∃ qs, Answers c c' qs) ?_ t _ c ⟨[], .refl c⟩
  rintro c' qi q hq ⟨qs, h⟩
  exact ⟨qs ++ [q], h.trans (finish_spec P gmTime c' q hq).1⟩

/-- **A reply with an id that nobody waits for changes nothing.** -/
theorem reply_unknown {c : Asking} {payload : Str}
    (h : ∀ id more lines, replyHead payload = some (id, more, lines) → ∀ q ∈ c.queries, q.id ≠ id) :
    activityReply P gmTime c payload = c := by
  unfold activityReply
  split
  · rfl
  · rename_i id more lines hhead
    split
    · rfl
    · have hnone : c.queries.findIdx? (·.id == id) = none := by
        rw [List.findIdx?_eq_none_iff]
        intro q hq
        simpa using h id more lines hhead q hq
      rw [hnone]

theorem tickLoop_done (t : Int) (n : Nat) : ∀ c : Asking, c.queries.length ≤ n →
    ∀ q ∈ (tickLoop P gmTime t n c).queries, t < q.deadline := by
  induction n with
  | zero =>
      intro c hlen q hq
      rw [tickLoop, List.length_eq_zero_iff.mp (Nat.le_zero.mp hlen)] at hq
      cases hq
  | succ n ih =>
      intro c hlen
      unfold tickLoop
      split
      · rename_i hnone
        intro q hq
        by_contra hdue
        cases hfind : c.queries.findIdx? fun q => decide (q.deadline ≤ t) with
        | none =>
            have hnot := List.findIdx?_eq_none_iff.mp hfind q hq
            rw [decide_eq_false_iff_not] at hnot
            omega
        | some j =>
            obtain ⟨hlt, -⟩ := List.findIdx?_eq_some_iff_getElem.mp hfind
            rw [hfind, Option.bind_some, List.getElem?_eq_getElem hlt] at hnone
            cases hnone
      · rename_i qi q hsome
        obtain ⟨j, -, hj⟩ := Option.bind_eq_some_iff.mp hsome
        obtain ⟨q', hq', heq⟩ := Option.map_eq_some_iff.mp hj
        obtain ⟨rfl, rfl⟩ := Prod.mk.inj heq
        apply ih
        have hlt := (List.getElem?_eq_some_iff.mp hq').1
        rw [(finish_spec P gmTime c q' hq').2.2, List.length_eraseIdx_of_lt hlt]
        omega

/-- **Nothing stays parked past its time.** -/
theorem tick_done (c : Asking) (t : Int) :
    ∀ q ∈ (activityTick P gmTime c t).queries, t < q.deadline :=
  tickLoop_done P gmTime t c.queries.length c le_rfl

/-! ### Runs -/

inductive Event where
  | run (nick : Str) (kind : ActqKind) (arg : Str) (rnd : Option Str)
  | reply (payload : Str)
  | tick (t : Int)
  /-- A chat is offered in a slot that nobody uses. -/
  | opens (i : Nat) (s : DccSession)
  /-- The chat of a slot is accepted, reads, writes. -/
  | moves (i : Nat) (s : DccSession)
  | closes (i : Nat)
  /-- A command comes, from a chat or with a key, or the command is done. -/
  | caller (dccReply : Option Nat) (a2r : A2rCtx)
  /-- The records, the clock and the links change. -/
  | elsewhere (bot : BotState) (wire : Wire)

/-- The slot has a chat. -/
def inUse (r : Replies) (i : Nat) : Bool := (r.dcc[i]?).any (·.phase ≠ .free)

def opens (c : Asking) (i : Nat) (s : DccSession) : Asking :=
  if inUse c.replies i || s.phase = .free then c
  else { c with replies := { c.replies with dcc := c.replies.dcc.set i s } }.note (.chat i s.dccToken)

def moves (c : Asking) (i : Nat) (s : DccSession) : Asking :=
  if inUse c.replies i && s.phase ≠ .free then
    { c with replies := { c.replies with
        dcc := c.replies.dcc.modify i fun old => { s with dccToken := old.dccToken } } }
  else c

def step (c : Asking) : Event → Asking
  | .run nick kind arg rnd => activityRun P gmTime c nick kind arg rnd
  | .reply payload => activityReply P gmTime c payload
  | .tick t => activityTick P gmTime c t
  | .opens i s => opens c i s
  | .moves i s => moves c i s
  | .closes i => { c with replies := free c.replies i }
  | .caller dccReply a2r =>
      { c with replies := { c.replies with dccReply := dccReply.filter (inUse c.replies), a2r } }
  | .elsewhere bot wire => { c with bot, replies := { c.replies with wire } }

def run (events : List Event) : Asking := events.foldl (step P gmTime) {}

/-- The query that a command was parked as. -/
def Trace.asked : Trace → Option ActivityQuery
  | .parked q => some q
  | _ => none

def Trace.chatIn (i : Nat) : Trace → Option Nat
  | .chat j tok => if j = i then some tok else none
  | _ => none

/-- The tokens of the chats that slot `i` has had. -/
def chatsIn (i : Nat) (trace : List Trace) : List Nat := trace.filterMap (Trace.chatIn i)

/-- The slot of `q` has had no other chat since `q` was parked. -/
def SameChat (q : ActivityQuery) (trace : List Trace) : Prop :=
  ∀ i tok, q.dcc = some (i, tok) → ∃ before since,
    trace = before ++ .parked q :: since ∧ chatsIn i since = []

/-- A parked command is answered with its own ticket and in its own chat. -/
def OwnAnswers (trace : List Trace) : Prop :=
  ∀ before q ticket, before ++ [.rendered (some q) ticket] <+: trace →
    ticket = q.ticket ∧ SameChat q before

/-- What every run keeps. -/
structure Kept (c : Asking) : Prop where
  few : c.queries.length ≤ maxActivityQueries
  once : (c.trace.filterMap Trace.finished ++ c.queries).Perm (c.trace.filterMap Trace.asked)
  latest : ∀ (i : Nat) s, c.replies.dcc[i]? = some s → s.phase ≠ .free →
    (chatsIn i c.trace).getLast? = some s.dccToken
  caller : ∀ i, c.replies.dccReply = some i → inUse c.replies i = true
  waits : ∀ q ∈ c.queries, ∀ i tok, q.dcc = some (i, tok) → ∃ before since,
    c.trace = before ++ .parked q :: since ∧ (chatsIn i before).getLast? = some tok
  own : (∀ i, (chatsIn i c.trace).Nodup) → OwnAnswers c.trace

@[simp] theorem chatsIn_append (i : Nat) (l l' : List Trace) :
    chatsIn i (l ++ l') = chatsIn i l ++ chatsIn i l' := List.filterMap_append

theorem OwnAnswers.append {trace : List Trace} {x : Trace} (h : OwnAnswers trace)
    (hx : ∀ q ticket, x = .rendered (some q) ticket → ticket = q.ticket ∧ SameChat q trace) :
    OwnAnswers (trace ++ [x]) := by
  intro before q ticket hprefix
  rcases List.prefix_concat_iff.mp hprefix with heq | hprefix
  · obtain ⟨rfl, hlast⟩ := List.append_inj' heq rfl
    exact hx q ticket (List.singleton_inj.mp hlast).symm
  · exact h before q ticket hprefix

/-- With a new token for each chat, the chat that has the token of a query is the one it was parked
in. -/
theorem Kept.sameChat {c : Asking} (h : Kept c) (hdistinct : ∀ i, (chatsIn i c.trace).Nodup)
    {q : ActivityQuery} (hq : q ∈ c.queries)
    (hopen : ∀ i tok, q.dcc = some (i, tok) →
      ∃ s, c.replies.dcc[i]? = some s ∧ s.phase = .opened ∧ s.dccToken = tok) :
    SameChat q c.trace := by
  intro i tok hdcc
  obtain ⟨s, hs, hphase, rfl⟩ := hopen i tok hdcc
  have hlatest := h.latest i s hs (by simp [hphase])
  obtain ⟨before, since, htrace, hbefore⟩ := h.waits q hq i _ hdcc
  refine ⟨before, since, htrace, ?_⟩
  have hnodup := hdistinct i
  have hsplit : chatsIn i c.trace = chatsIn i before ++ chatsIn i since := by
    rw [htrace, chatsIn_append]
    rfl
  rw [hsplit] at hlatest hnodup
  by_contra hne
  rw [List.getLast?_append_of_ne_nil _ hne] at hlatest
  exact (List.nodup_append.mp hnodup).2.2 _ (List.mem_of_getLast? hbefore) _
    (List.mem_of_getLast? hlatest) rfl

/-- What follows a parking leaves it where it is in the history. -/
theorem waits_append {q : ActivityQuery} {trace : List Trace} {i tok : Nat}
    (h : ∃ before since, trace = before ++ .parked q :: since ∧
      (chatsIn i before).getLast? = some tok)
    (x : Trace) : ∃ before since, trace ++ [x] = before ++ .parked q :: since ∧
      (chatsIn i before).getLast? = some tok := by
  obtain ⟨before, since, rfl, hlast⟩ := h
  exact ⟨before, since ++ [x], by rw [List.append_assoc, List.cons_append], hlast⟩

theorem nodup_init {trace : List Trace} {x : Trace}
    (h : ∀ i, (chatsIn i (trace ++ [x])).Nodup) (i : Nat) : (chatsIn i trace).Nodup := by
  have hi := h i
  rw [chatsIn_append] at hi
  exact (List.nodup_append.mp hi).1

theorem inUse_same {r r' : Replies} {i : Nat}
    (h : (r'.dcc[i]?).map chatOf = (r.dcc[i]?).map chatOf) : inUse r' i = inUse r i := by
  have hview : ∀ r : Replies, inUse r i = ((r.dcc[i]?).map chatOf).any (·.1 ≠ .free) := by
    intro r
    unfold inUse
    cases r.dcc[i]? with
    | none => rfl
    | some s => rfl
  rw [hview, hview, h]

theorem latest_same {c c' : Asking} (h : Kept c) {i : Nat}
    (hsame : (c'.replies.dcc[i]?).map chatOf = (c.replies.dcc[i]?).map chatOf) {s : DccSession}
    (hs : c'.replies.dcc[i]? = some s) (hphase : s.phase ≠ .free) :
    (chatsIn i c.trace).getLast? = some s.dccToken := by
  rw [hs, Option.map_some] at hsame
  obtain ⟨old, hold, heq⟩ := Option.map_eq_some_iff.mp hsame.symm
  obtain ⟨hphase', htoken, -⟩ : old.phase = s.phase ∧ old.dccToken = s.dccToken ∧
    old.nick = s.nick := by
    simpa [chatOf] using heq
  rw [h.latest i old hold (hphase' ▸ hphase), htoken]

/-- What the end of a parked command adds to the history. -/
theorem finish_note (c : Asking) (q : ActivityQuery) :
    ∃ x, (activityFinish P gmTime c q).trace = c.trace ++ [x] ∧ x.finished = some q ∧
      x.asked = none ∧
      (∀ i, x.chatIn i = none) ∧ ∀ q' ticket, x = .rendered (some q') ticket →
        ticket = q'.ticket ∧ q' = q ∧ ¬ dccGone c q = true := by
  rcases finish_trace P gmTime c q with ⟨-, heq⟩ | ⟨hgone, htrace⟩
  · rw [heq]
    refine ⟨.dropped q, rfl, rfl, rfl, fun _ => rfl, ?_⟩
    intro q' ticket h
    cases h
  · refine ⟨_, htrace, rfl, rfl, fun _ => rfl, ?_⟩
    intro q' ticket h
    cases h
    exact ⟨rfl, rfl, hgone⟩

theorem Kept.finish {c : Asking} (h : Kept c) {q : ActivityQuery} {qi : Nat}
    (hq : c.queries[qi]? = some q) :
    Kept (activityFinish P gmTime { c with queries := c.queries.eraseIdx qi } q) := by
  obtain ⟨hanswer, -, hqueries⟩ := finish_spec P gmTime c q hq
  obtain ⟨x, htrace, hfinished, hasked, hchat, hrendered⟩ :=
    finish_note P gmTime { c with queries := c.queries.eraseIdx qi } q
  have hchats : ∀ i, chatsIn i (c.trace ++ [x]) = chatsIn i c.trace := by
    intro i
    simp [chatsIn, hchat]
  have hmem : q ∈ c.queries := List.mem_of_getElem? hq
  dsimp only at htrace
  constructor
  · rw [hqueries]
    exact (List.length_eraseIdx_le _ _).trans h.few
  · have hfin : (c.trace ++ [x]).filterMap Trace.finished =
      c.trace.filterMap Trace.finished ++ [q] := by
      simp [hfinished]
    have hask : (c.trace ++ [x]).filterMap Trace.asked = c.trace.filterMap Trace.asked := by
      simp [hasked]
    rw [htrace, hfin, hask, List.append_assoc]
    exact (hanswer.queries.append_left _).trans h.once
  · intro i s hs hphase
    rw [htrace, hchats]
    exact latest_same h (hanswer.same i) hs hphase
  · intro i hi
    rw [inUse_same (hanswer.same i)]
    exact h.caller i (hanswer.reply ▸ hi)
  · intro q' hq' i tok hdcc
    rw [hqueries] at hq'
    rw [htrace]
    exact waits_append (h.waits q' (List.mem_of_mem_eraseIdx hq') i tok hdcc) x
  · intro hdistinct
    rw [htrace] at hdistinct ⊢
    have hbefore := nodup_init hdistinct
    apply (h.own hbefore).append
    intro q' ticket hx
    obtain ⟨hticket, rfl, hgone⟩ := hrendered q' ticket hx
    refine ⟨hticket, h.sameChat hbefore hmem ?_⟩
    intro i tok hdcc
    exact not_dccGone hgone hdcc

/-! #### Asking -/

/-- A command is parked as it came, or nothing is parked. -/
theorem park_spec (c : Asking) (nick : Str) (kind : ActqKind) (arg : Str) (rnd : Option Str) :
    (∃ bot q, activityPark c nick kind arg rnd =
        (true, ({ c with bot, queries := c.queries ++ [q] } : Asking).note (.parked q)) ∧
      c.queries.length < maxActivityQueries ∧
      q.ticket = ⟨nick, kind, arg, (context c.replies).1, (context c.replies).2⟩) ∨
    ∃ bot, activityPark c nick kind arg rnd = (false, { c with bot }) := by
  unfold activityPark
  split
  · exact .inr ⟨c.bot, rfl⟩
  · rename_i hguard
    simp only [Bool.or_eq_true, decide_eq_true_eq, not_or] at hguard
    split
    · dsimp only
      split
      · exact .inr ⟨_, rfl⟩
      · exact .inl ⟨_, _, rfl, Nat.lt_of_not_le hguard.1.1.2, rfl⟩
    · exact .inr ⟨c.bot, rfl⟩

/-- From `c` to `c'` a command with this ticket has been parked, or answered at once. -/
inductive Asks (c c' : Asking) (ticket : Ticket) : Prop where
  | parked (q : ActivityQuery) (hticket : q.ticket = ticket) (hfew : c.queries.length < maxActivityQueries)
      (hqueries : c'.queries = c.queries ++ [q]) (htrace : c'.trace = c.trace ++ [.parked q])
      (hreplies : c'.replies = c.replies)
  | now (hqueries : c'.queries = c.queries) (htrace : c'.trace = c.trace ++ [.rendered none ticket])
      (hreplies : SameChats c.replies c'.replies)

/-- **A command is parked with its context, or answered at once in it.** -/
theorem run_spec (c : Asking) (nick : Str) (kind : ActqKind) (arg : Str) (rnd : Option Str) :
    Asks c (activityRun P gmTime c nick kind arg rnd)
      ⟨nick, kind, arg, (context c.replies).1, (context c.replies).2⟩ := by
  unfold activityRun
  rcases park_spec c nick kind arg rnd with ⟨bot, q, heq, hlen, hticket⟩ | ⟨bot, heq⟩
  · rw [heq]
    exact .parked q hticket hlen rfl rfl rfl
  · rw [heq]
    obtain ⟨-, hqueries, htrace, hreplies⟩ := render_spec P gmTime { c with bot } none nick kind arg
    exact .now hqueries htrace hreplies

theorem context_eq_some {r : Replies} {i tok : Nat} (h : (context r).1 = some (i, tok)) :
    r.dccReply = some i ∧ ∃ s, r.dcc[i]? = some s ∧ s.dccToken = tok := by
  obtain ⟨j, hj, hs⟩ := Option.bind_eq_some_iff.mp h
  obtain ⟨s, hslot, heq⟩ := Option.map_eq_some_iff.mp hs
  obtain ⟨rfl, rfl⟩ := Prod.mk.inj heq
  exact ⟨hj, s, hslot, rfl⟩

theorem Kept.park {c c' : Asking} (h : Kept c) {q : ActivityQuery} {nick : Str} {kind : ActqKind}
    {arg : Str} (hticket : q.ticket = ⟨nick, kind, arg, (context c.replies).1, (context c.replies).2⟩)
    (hlen : c.queries.length < maxActivityQueries) (hqueries : c'.queries = c.queries ++ [q])
    (htrace : c'.trace = c.trace ++ [.parked q]) (hreplies : c'.replies = c.replies) : Kept c' := by
  have hchats : ∀ i, chatsIn i c'.trace = chatsIn i c.trace := by
    intro i
    simp [htrace, chatsIn, Trace.chatIn]
  have hdcc : q.dcc = (context c.replies).1 := congrArg Ticket.dcc hticket
  constructor
  · rw [hqueries, List.length_append]
    exact hlen
  · have hfin : c'.trace.filterMap Trace.finished = c.trace.filterMap Trace.finished := by
      simp [htrace, Trace.finished]
    have hask : c'.trace.filterMap Trace.asked = c.trace.filterMap Trace.asked ++ [q] := by
      simp [htrace, Trace.asked]
    rw [hqueries, hfin, hask, ← List.append_assoc]
    exact h.once.append_right [q]
  · rw [hreplies]
    intro i s hs hphase
    rw [hchats]
    exact h.latest i s hs hphase
  · rw [hreplies]
    exact h.caller
  · intro q' hq' i tok htok
    rw [htrace]
    rw [hqueries] at hq'
    rcases List.mem_append.mp hq' with hq' | hq'
    · exact waits_append (h.waits q' hq' i tok htok) _
    · rw [List.mem_singleton.mp hq', hdcc] at htok
      rw [List.mem_singleton.mp hq']
      obtain ⟨hreply, s, hs, rfl⟩ := context_eq_some htok
      have huse := h.caller i hreply
      rw [inUse, hs, Option.any_some] at huse
      exact ⟨c.trace, [], rfl, h.latest i s hs (of_decide_eq_true huse)⟩
  · intro hdistinct
    rw [htrace] at hdistinct ⊢
    apply (h.own (nodup_init hdistinct)).append
    intro q' ticket hx
    cases hx

/-- A listing for the caller. -/
theorem Kept.render {c c' : Asking} (h : Kept c) {ticket : Ticket}
    (hqueries : c'.queries = c.queries) (htrace : c'.trace = c.trace ++ [.rendered none ticket])
    (hreplies : SameChats c.replies c'.replies) : Kept c' := by
  have hchats : ∀ i, chatsIn i c'.trace = chatsIn i c.trace := by
    intro i
    simp [htrace, chatsIn, Trace.chatIn]
  constructor
  · exact hqueries ▸ h.few
  · have hfin : c'.trace.filterMap Trace.finished = c.trace.filterMap Trace.finished := by
      simp [htrace, Trace.finished]
    have hask : c'.trace.filterMap Trace.asked = c.trace.filterMap Trace.asked := by
      simp [htrace, Trace.asked]
    rw [hqueries, hfin, hask]
    exact h.once
  · intro i s hs hphase
    rw [hchats]
    exact latest_same h (hreplies.same i) hs hphase
  · intro i hi
    rw [inUse_same (hreplies.same i)]
    exact h.caller i (hreplies.reply ▸ hi)
  · intro q hq i tok hdcc
    rw [htrace]
    exact waits_append (h.waits q (hqueries ▸ hq) i tok hdcc) _
  · intro hdistinct
    rw [htrace] at hdistinct ⊢
    apply (h.own (nodup_init hdistinct)).append
    intro q ticket hx
    cases hx

theorem Kept.run {c : Asking} (h : Kept c) (nick : Str) (kind : ActqKind) (arg : Str)
    (rnd : Option Str) : Kept (activityRun P gmTime c nick kind arg rnd) := by
  cases run_spec P gmTime c nick kind arg rnd with
  | parked q hticket hfew hqueries htrace hreplies =>
      exact h.park hticket hfew hqueries htrace hreplies
  | now hqueries htrace hreplies => exact h.render hqueries htrace hreplies

/-! #### Chats -/

theorem Kept.opens {c : Asking} (h : Kept c) (i : Nat) (s : DccSession) : Kept (opens c i s) := by
  unfold ActivityQueries.opens
  split
  · exact h
  · rename_i hfree
    simp only [Bool.or_eq_true, decide_eq_true_eq, not_or, Bool.not_eq_true] at hfree
    constructor
    · exact h.few
    · have hfin : (c.trace ++ [Trace.chat i s.dccToken]).filterMap Trace.finished =
          c.trace.filterMap Trace.finished := by
        simp [Trace.finished]
      have hask : (c.trace ++ [Trace.chat i s.dccToken]).filterMap Trace.asked =
          c.trace.filterMap Trace.asked := by
        simp [Trace.asked]
      rw [Asking.note, hfin, hask]
      exact h.once
    · intro j s' hs' hphase
      rw [Asking.note, chatsIn_append]
      by_cases hij : i = j
      · obtain rfl := hij
        obtain rfl := set_self_eq hs'
        simp [chatsIn, Trace.chatIn]
      · rw [Asking.note, List.getElem?_set_ne hij] at hs'
        simpa [chatsIn, Trace.chatIn, hij] using h.latest j s' hs' hphase
    · intro j hj
      have hne : i ≠ j := by
        rintro rfl
        exact Bool.false_ne_true (hfree.1.symm.trans (h.caller i hj))
      rw [inUse, Asking.note, List.getElem?_set_ne hne]
      exact h.caller j hj
    · intro q hq j tok hdcc
      exact waits_append (h.waits q hq j tok hdcc) _
    · intro hdistinct
      apply (h.own (nodup_init hdistinct)).append
      intro q ticket hx
      cases hx

/-- What changes neither the queries nor the history keeps the invariant, if the chats are the ones
that the history tells of. -/
theorem Kept.same {c c' : Asking} (h : Kept c) (hqueries : c'.queries = c.queries)
    (htrace : c'.trace = c.trace)
    (hlatest : ∀ (i : Nat) s, c'.replies.dcc[i]? = some s → s.phase ≠ .free →
      (chatsIn i c.trace).getLast? = some s.dccToken)
    (hcaller : ∀ i, c'.replies.dccReply = some i → inUse c'.replies i = true) : Kept c' := by
  constructor
  · exact hqueries ▸ h.few
  · rw [hqueries, htrace]
    exact h.once
  · rw [htrace]
    exact hlatest
  · exact hcaller
  · rw [hqueries, htrace]
    exact h.waits
  · rw [htrace]
    exact h.own

theorem Kept.moves {c : Asking} (h : Kept c) (i : Nat) (s : DccSession) : Kept (moves c i s) := by
  unfold ActivityQueries.moves
  split
  · rename_i huse
    simp only [Bool.and_eq_true, decide_eq_true_eq] at huse
    refine h.same rfl rfl ?_ ?_
    · intro j s' hs' hphase
      dsimp only at hs'
      rw [List.getElem?_modify, Option.map_eq_map] at hs'
      obtain ⟨old, hold, rfl⟩ := Option.map_eq_some_iff.mp hs'
      by_cases hij : i = j
      · obtain rfl := hij
        have hused := huse.1
        rw [inUse, hold, Option.any_some] at hused
        rw [if_pos rfl]
        exact h.latest i old hold (of_decide_eq_true hused)
      · rw [if_neg hij] at hphase ⊢
        exact h.latest j old hold hphase
    · intro j hj
      have hused := h.caller j hj
      unfold inUse at hused ⊢
      dsimp only
      rw [List.getElem?_modify]
      cases hold : c.replies.dcc[j]? with
      | none =>
          rw [hold] at hused
          cases hused
      | some old =>
          rw [hold] at hused
          by_cases hij : i = j
          · simpa [hij] using huse.2
          · simpa [hij] using hused
  · exact h

theorem Kept.closes {c : Asking} (h : Kept c) (i : Nat) :
    Kept { c with replies := free c.replies i } := by
  refine h.same rfl rfl ?_ ?_
  · intro j s hs hphase
    by_cases hij : i = j
    · obtain rfl := hij
      obtain rfl := set_self_eq hs
      exact absurd rfl hphase
    · rw [free, List.getElem?_set_ne hij] at hs
      exact h.latest j s hs hphase
  · intro j hj
    unfold free at hj
    dsimp only at hj
    split at hj
    · cases hj
    · rename_i hne
      have hij : i ≠ j := by
        rintro rfl
        exact hne hj
      rw [inUse, free, List.getElem?_set_ne hij]
      exact h.caller j hj

theorem step_kept {c : Asking} (h : Kept c) (e : Event) : Kept (step P gmTime c e) := by
  cases e with
  | run nick kind arg rnd => exact h.run P gmTime nick kind arg rnd
  | reply payload =>
      refine reply_keeps P gmTime (I := Kept) ?_ ?_ h payload
      · intro c lines h
        exact h.same rfl rfl h.latest h.caller
      · intro c qi q hq h
        exact h.finish P gmTime hq
  | tick t =>
      refine tickLoop_keeps P gmTime (I := Kept) ?_ t _ c h
      intro c qi q hq h
      exact h.finish P gmTime hq
  | opens i s => exact h.opens i s
  | moves i s => exact h.moves i s
  | closes i => exact h.closes i
  | caller dccReply a2r =>
      refine h.same rfl rfl h.latest ?_
      intro i hi
      exact (Option.filter_eq_some_iff.mp hi).2
  | elsewhere bot wire => exact h.same rfl rfl h.latest h.caller

theorem run_kept (events : List Event) : Kept (run P gmTime events) := by
  have hsteps : ∀ c, Kept c → Kept (events.foldl (step P gmTime) c) := by
    induction events with
    | nil =>
        intro c h
        exact h
    | cons e es ih =>
        intro c h
        exact ih _ (step_kept P gmTime h e)
  apply hsteps
  constructor
  · exact Nat.zero_le _
  · exact .refl _
  · intro i s hs hphase
    rw [List.mem_replicate.mp (List.mem_of_getElem? hs) |>.2] at hphase
    exact absurd rfl hphase
  · intro i hi
    cases hi
  · intro q hq
    cases hq
  · intro _ before q ticket hprefix
    simp at hprefix

/-- **Parked commands are answered once, where they came from.** In every run in which the chats of
a slot have different tokens, at most four commands wait, each that was parked waits or is over, and
each that is answered goes to its nick, with its key, and to its own chat; whoever else has a
context keeps it. -/
theorem parked_queries (events : List Event)
    (hdistinct : ∀ i, (chatsIn i (run P gmTime events).trace).Nodup) :
    let c := run P gmTime events
    c.queries.length ≤ maxActivityQueries ∧
    (c.trace.filterMap Trace.finished ++ c.queries).Perm (c.trace.filterMap Trace.asked) ∧
    OwnAnswers c.trace ∧
    (∀ nick kind arg rnd, Asks c (step P gmTime c (.run nick kind arg rnd))
      ⟨nick, kind, arg, (context c.replies).1, (context c.replies).2⟩) ∧
    (∀ payload, ∃ qs, Answers c (step P gmTime c (.reply payload)) qs) ∧
    (∀ payload, (∀ id more lines, replyHead payload = some (id, more, lines) →
      ∀ q ∈ c.queries, q.id ≠ id) → step P gmTime c (.reply payload) = c) ∧
    ∀ t, (∃ qs, Answers c (step P gmTime c (.tick t)) qs) ∧
      ∀ q ∈ (step P gmTime c (.tick t)).queries, t < q.deadline := by
  intro c
  have hkept : Kept c := run_kept P gmTime events
  refine ⟨hkept.few, hkept.once, hkept.own hdistinct, ?_, ?_, ?_, ?_⟩
  · intro nick kind arg rnd
    exact run_spec P gmTime c nick kind arg rnd
  · intro payload
    exact reply_spec P gmTime c payload
  · intro payload hunknown
    exact reply_unknown P gmTime hunknown
  · intro t
    exact ⟨tick_spec P gmTime c t, tick_done P gmTime c t⟩

end Render

/-- Alice asks from her chat and leaves; Bob gets her slot before the hub has answered. -/
def slotTaken : List Event :=
  [.elsewhere { link := { authenticated := true, sock := true }, now := 100 } {},
   .opens 0 { phase := .opened, dccToken := 7, nick := str "alice" },
   .caller (some 0) {},
   .run (str "alice") .admins [] (some (List.replicate 8 1)),
   .closes 0,
   .opens 0 { phase := .opened, dccToken := 8, nick := str "bob" },
   .tick 103]

theorem slotTaken_own :
    (∃ q, (run .clear (fun _ => []) slotTaken).trace = [.chat 0 7, .parked q, .chat 0 8, .dropped q]) ∧
      OwnAnswers (run .clear (fun _ => []) slotTaken).trace := by
  have htrace : ∃ q, (run .clear (fun _ => []) slotTaken).trace =
      [.chat 0 7, .parked q, .chat 0 8, .dropped q] := ⟨_, rfl⟩
  refine ⟨htrace, (parked_queries .clear (fun _ => []) slotTaken ?_).2.2.1⟩
  intro i
  obtain ⟨q, htrace⟩ := htrace
  rw [htrace]
  by_cases hi : i = 0 <;> simp [chatsIn, Trace.chatIn, hi, eq_comm, List.filterMap_cons]

end IrcBot.ActivityQueries
