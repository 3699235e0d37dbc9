/-
# The fields of a line from the server (`irc_parser.rs`)

Each handler cuts its parameters out of the line by itself: some by token, some at the
first `:`, some at the first space.
-/
import IrcBot.Cstr

namespace IrcBot.IrcLine

open Cstr

/-- The nick of a prefix. -/
def prefixNick (pre : Str) : Option Str := (tokNext (str "!") pre).1

/-- `strip_prefix(':')`, where there is one. -/
def stripColon (params : Str) : Str :=
  if params.head? = some (byte ':') then params.tail else params

/-- `split(' ').next()`. -/
def firstWord (s : Str) : Str := s.takeWhile (· ≠ byte ' ')

/-- `second_tok`: the channel of most numerics. -/
def secondTok (params : Str) : Option Str :=
  (tokNext (str " ") (tokNext (str " ") params).2).1

end IrcBot.IrcLine
