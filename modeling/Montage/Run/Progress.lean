import Montage.Number.Scalar
import Montage.Text.Numeral

/-!
Reports of an encoder on its progress. They come as blocks of `name=value` lines that a line named
`progress` ends, and as status lines that hold several names; all other lines are ignored.
-/

namespace Montage

/-! ### Timestamps -/

/-- A text cut at every colon. -/
def cutAtColons : List Char → List Char × List (List Char)
  | [] => ([], [])
  | c :: rest =>
    let (first, others) := cutAtColons rest
    if c = ':' then ([], first :: others) else (c :: first, others)

/-- Seconds from hours, minutes and seconds; nothing if the parts are malformed or the text has
a minus at its start. -/
def clockSeconds (text : String) : Except NumberError (Option Double) :=
  let cs := Text.strip text.toList
  match cutAtColons cs with
  | (hours, [minutes, seconds]) =>
    match Text.whole? (String.ofList hours), Text.whole? (String.ofList minutes),
      Text.decimal? (String.ofList seconds) with
    | some hours, some minutes, some seconds =>
      if hours < 0 ∨ cs.head? = some '-' then .ok none
      else (Double.ofInt (hours * 3600 + minutes * 60)).map fun whole => some (whole + seconds)
    | _, _, _ => .ok none
  | _ => .ok none

/-! ### Values inside status lines -/

/-- What follows the first place at which `name` stands with a match of `pattern` behind it. -/
def findAfter? {α : Type} (name : List Char) (pattern : List Char → Option α) :
    List Char → Option α
  | [] => none
  | c :: rest =>
    let here :=
      if name.isPrefixOf (c :: rest) then
        pattern (((c :: rest).drop name.length).dropWhile Text.isBlank)
      else none
    match here with
    | some found => some found
    | none => findAfter? name pattern rest

/-- Decimal digits at the start of a text, at least one, and what follows them. -/
def digitRun? (cs : List Char) : Option (List Char × List Char) :=
  let digits := cs.takeWhile Text.isDecimalDigit
  if digits.isEmpty then none else some (digits, cs.dropWhile Text.isDecimalDigit)

/-- Behind a colon, decimal digits. -/
def colonDigits? : List Char → Option (List Char × List Char)
  | ':' :: rest => (digitRun? rest).map fun (digits, rest) => (':' :: digits, rest)
  | _ => none

/-- Hours, minutes and seconds with colons between them. -/
def timePattern? (cs : List Char) : Option String := do
  let (sign, rest) := match cs with
    | '-' :: rest => (['-'], rest)
    | rest => ([], rest)
  let (hours, rest) ← digitRun? rest
  let (minutes, rest) ← colonDigits? rest
  let (seconds, rest) ← colonDigits? rest
  let fraction : Option (List Char) := match rest with
    | '.' :: rest => (digitRun? rest).map fun run => '.' :: run.1
    | _ => none
  return String.ofList (sign ++ hours ++ minutes ++ seconds ++ fraction.getD [])

/-- Digits and points, at least one, and what follows them. -/
def pointedRun? (cs : List Char) : Option (List Char × List Char) :=
  let isPart (c : Char) : Bool := c = '.' || Text.isDecimalDigit c
  let run := cs.takeWhile isPart
  if run.isEmpty then none else some (run, cs.dropWhile isPart)

def ratePattern? (cs : List Char) : Option String :=
  (pointedRun? cs).map fun (run, _) => String.ofList run

/-- Digits and points with an `x` behind them. -/
def speedPattern? (cs : List Char) : Option String :=
  match pointedRun? cs with
  | some (run, 'x' :: _) => some (String.ofList run)
  | _ => none

def framePattern? (cs : List Char) : Option String :=
  (digitRun? cs).map fun (run, _) => String.ofList run

/-! ### Updates -/

/-- How far an encoder has come. -/
structure EncoderProgress where
  outTime : Double
  percent : Double
  rate : Option Double := none
  speed : Option Double := none
  frame : Option Int := none
  remaining : Option Double := none
  finished : Bool := false

/-- What was read so far: the lines of an unfinished block and the last update. -/
structure ProgressReader where
  duration : Option Double := none
  block : List (String × String) := []
  last : Option EncoderProgress := none

namespace ProgressReader

/-- Values with one added, in place of a former one of its name. -/
def setValue (name value : String) : List (String × String) → List (String × String)
  | [] => [(name, value)]
  | (other, old) :: rest =>
    if other = name then (name, value) :: rest else (other, old) :: setValue name value rest

/-- The percentage of a duration, from 0 to 100. -/
def percentOf (outTime duration : Double) : Double :=
  Scalar.minOf 100 (Scalar.maxOf Scalar.zero (outTime / duration * 100))

/-- The update that reported values amount to. Without a duration above zero there is no
percentage; a finished job is complete whatever the values say. -/
def update (parser : ProgressReader) (outTime : Double) (rate speed : Option Double)
    (frame : Option Int) (finished : Bool) : EncoderProgress :=
  let outTime := Scalar.maxOf Scalar.zero outTime
  let duration := parser.duration.filter fun d => Scalar.zero < d
  let percent := (duration.map (percentOf outTime)).getD Scalar.zero
  let remaining := duration.bind fun d =>
    (speed.filter fun s => Scalar.zero < s).map fun s =>
      Scalar.maxOf Scalar.zero (d - outTime) / s
  if finished then
    { outTime, percent := 100, rate, speed, frame, remaining := some Scalar.zero, finished }
  else { outTime, percent, rate, speed, frame, remaining, finished }

/-- The value of a text that may have `x` at its end, if it is a number. -/
def factor? (text : String) : Option Double :=
  Text.decimal? (String.ofList (Text.dropEndWhile (· = 'x') (Text.strip text.toList)))

/-- The whole number that a text must be. -/
def wholeOf (text : String) : Except NumberError Int :=
  match Text.whole? text with
  | some n => .ok n
  | none => .error .notNumeral

/-- The number that a text must be. -/
def decimalOf (text : String) : Except NumberError Double :=
  match Text.decimal? text with
  | some x => .ok x
  | none => .error .notNumeral

/-- Whether a text is made of digits, of which it has at least one. -/
def allDigits (cs : List Char) : Bool := !cs.isEmpty && cs.all Text.isDigit

/-- Microseconds under a name of a block, as seconds. -/
def microseconds (block : List (String × String)) (name : String) :
    Except NumberError (Option Double) :=
  match block.lookup name with
  | some raw =>
    if allDigits (raw.toList.dropWhile (· = '-')) then do
      return some (← Double.ofQuotient (← wholeOf raw) 1000000)
    else .ok none
  | none => .ok none

/-- The time that a block reports. -/
def reportedTime (block : List (String × String)) : Except NumberError (Option Double) := do
  match ← microseconds block "out_time_us" with
  | some t => return some t
  | none =>
    match ← microseconds block "out_time_ms" with
    | some t => return some t
    | none =>
      match block.lookup "out_time" with
      | some raw => if raw = "" then return none else clockSeconds raw
      | none => return none

/-- The number of the frame that a block reports. -/
def blockFrame (block : List (String × String)) : Except NumberError (Option Int) :=
  match block.lookup "frame" with
  | some raw => if allDigits raw.toList then (wholeOf raw).map some else .ok none
  | none => .ok none

/-- The update at the end of a block; a block without a time repeats that of the last update. -/
def blockUpdate (parser : ProgressReader) (block : List (String × String)) (finished : Bool) :
    Except NumberError EncoderProgress := do
  let outTime := (← reportedTime block).getD ((parser.last.map (·.outTime)).getD Scalar.zero)
  let frame ← blockFrame block
  return parser.update outTime ((block.lookup "fps").bind factor?)
    ((block.lookup "speed").bind factor?) frame finished

/-- A line of output: part of a block, the end of one, or nothing of interest. -/
def feedOutput (parser : ProgressReader) (line : String) :
    Except NumberError (Option EncoderProgress) × ProgressReader :=
  let cs := Text.strip line.toList
  if !cs.contains '=' then (.ok none, parser)
  else
    let name := String.ofList (Text.strip (cs.takeWhile (· ≠ '=')))
    let value := String.ofList (Text.strip ((cs.dropWhile (· ≠ '=')).drop 1))
    if name ≠ "progress" then (.ok none, { parser with block := setValue name value parser.block })
    else
      match parser.blockUpdate parser.block (value = "end") with
      | .ok update => (.ok (some update), { parser with block := [], last := some update })
      | .error cause => (.error cause, { parser with block := [] })

/-- The update of a status line, if it reports a time. -/
def statusUpdate (parser : ProgressReader) (cs : List Char) :
    Except NumberError (Option EncoderProgress) := do
  match findAfter? "time=".toList timePattern? cs with
  | none => return none
  | some time =>
    match ← clockSeconds time with
    | none => return none
    | some outTime =>
      -- The other values may be missing, but what stands in their places must be numbers.
      let rate ← (findAfter? "fps=".toList ratePattern? cs).mapM decimalOf
      let speed ← (findAfter? "speed=".toList speedPattern? cs).mapM decimalOf
      let frame ← (findAfter? "frame=".toList framePattern? cs).mapM wholeOf
      return some (parser.update outTime rate speed frame false)

/-- A line of messages: a status line or nothing of interest. -/
def feedMessage (parser : ProgressReader) (line : String) :
    Except NumberError (Option EncoderProgress) × ProgressReader :=
  match parser.statusUpdate line.toList with
  | .ok (some update) => (.ok (some update), { parser with last := some update })
  | other => (other, parser)

end ProgressReader

end Montage
