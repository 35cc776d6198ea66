import Quorum.Saturating

namespace Quorum

/-- An instant (milliseconds since the epoch) or a span of time. -/
abbrev Millis := UInt64

/-- The instant a span after this one; the last representable instant if that lies beyond it. -/
def Millis.later (instant span : Millis) : Millis := saturatingAdd instant span

/-- As a number, a later instant is the sum, cut at the last representable instant. -/
theorem Millis.toNat_later (instant span : Millis) :
    (instant.later span).toNat = min (instant.toNat + span.toNat) (UInt64.size - 1) :=
  toNat_saturatingAdd instant span

/-- A span in its largest fitting unit: seconds with the needed decimals, else milliseconds, and
    `0ns` for none. -/
def Millis.toText (span : Millis) : String :=
  let n := span.toNat
  if n = 0 then "0ns"
  else if n < 1000 then toString n ++ "ms"
  else
    let decimals := [n / 100 % 10, n / 10 % 10, n % 10].map Nat.digitChar
    let kept := (decimals.reverse.dropWhile (· = '0')).reverse
    let fraction := if kept.isEmpty then [] else '.' :: kept
    toString (n / 1000) ++ String.ofList fraction ++ "s"

/-- A blocking call's deadline: none if it waits for ever. -/
def deadline (now : Millis) (timeout : Option Millis) : Option Millis :=
  timeout.map now.later

end Quorum
