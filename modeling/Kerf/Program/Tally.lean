/-!
# Tallies

How often each message occurred, in the order of first occurrence.
-/

set_option autoImplicit false

namespace Kerf

/-- Messages with their counts, each message once, in the order of first occurrence. -/
abbrev Tally := List (String × Nat)

namespace Tally

def add (message : String) : Tally → Tally
  | [] => [(message, 1)]
  | (known, count) :: rest =>
      if known == message then (known, count + 1) :: rest
      else (known, count) :: add message rest

def addAll (tally : Tally) (messages : List String) : Tally :=
  messages.foldl (fun tally message => tally.add message) tally

def count (tally : Tally) (message : String) : Nat := (tally.lookup message).getD 0

def lines (tally : Tally) : List String :=
  tally.map fun (message, count) =>
    if count = 1 then "  " ++ message ++ " (1 time)\n"
    else "  " ++ message ++ " (" ++ toString count ++ " times)\n"

/-- A titled section with a line for each message; nothing for an empty tally. -/
def describe (title : String) (tally : Tally) : String :=
  if tally.isEmpty then "" else title ++ ":\n" ++ String.join tally.lines

end Tally

end Kerf
