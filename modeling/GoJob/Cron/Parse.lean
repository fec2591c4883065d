import GoJob.Calendar
import GoJob.Job
/-!
# Cron.Parse — reading an expression (`cron/cron.go`)

Six fields, each a list of values, ranges and steps, become six sets.  Go's integers wrap around and an index outside a
slice stops the program, so reading ends in one of three ways: an expression, an error or a run-time panic.
-/
namespace GoJob
namespace Cron

/-- A piece of the text.  Bytes that are not UTF-8 read as U+FFFD, which is in no field, name or number. -/
abbrev Text := List Char

/-- How reading ends without an expression. -/
inductive Stop
  | error (detail : String)
  | panic (index : Int) (length : Nat)
  deriving DecidableEq, Repr

/-! ## The standard library -/

def isSpace (c : Char) : Bool :=
  let n := c.toNat
  (9 ≤ n && n ≤ 13) || n == 0x20 || n == 0x85 || n == 0xA0 || n == 0x1680 || (0x2000 ≤ n && n ≤ 0x200A) ||
    n == 0x2028 || n == 0x2029 || n == 0x202F || n == 0x205F || n == 0x3000

/-- `strings.Fields`. -/
def splitFields (s : Text) : List Text := (s.splitOnP isSpace).filter (· ≠ [])

def trimSpace (s : Text) : Text := ((s.dropWhile isSpace).reverse.dropWhile isSpace).reverse

/-- `unicode.ToUpper`, of the characters whose capital is in ASCII: besides its letters, these are the dotless i and the
long s. -/
def toUpper (c : Char) : Char :=
  if c = 'ı' then 'I' else if c = 'ſ' then 'S' else c.toUpper

def atoi (s : Text) : Option Int := parseInt (String.ofList s)

theorem atoi_lt {s : Text} {n : Int} (h : atoi s = some n) : n < 2 ^ 63 := by
  unfold atoi parseInt at h
  have := (Option.filter_eq_some_iff.1 h).2
  simp only [Bool.and_eq_true, decide_eq_true_eq] at this
  exact this.2

/-- What stands before the first `c`, and what stands behind it if there is one. -/
def cut (c : Char) (s : Text) : Text × Option Text :=
  (s.takeWhile (· ≠ c), (s.dropWhile (· ≠ c)).tail?)

/-! ## Fields -/

inductive Field
  | second | minute | hour | dom | month | dow
  deriving DecidableEq, Repr

namespace Field

/-- `fieldNames`. -/
def name : Field → String
  | second => "second"
  | minute => "minute"
  | hour   => "hour"
  | dom    => "day-of-month"
  | month  => "month"
  | dow    => "day-of-week"

/-- `fieldBounds`. -/
def lo : Field → Int
  | dom | month => 1
  | _ => 0

def hi : Field → Int
  | second | minute => 59
  | hour  => 23
  | dom   => 31
  | month => 12
  | dow   => 7

/-- The length of the slice the field is read into. -/
def size : Field → Nat
  | second | minute => 60
  | hour  => 24
  | dom   => 32
  | month => 13
  | dow   => 8

/-- `monthNames` and `dayNames`. -/
def names : Field → List (String × Int)
  | month => [("JAN", 1), ("FEB", 2), ("MAR", 3), ("APR", 4), ("MAY", 5), ("JUN", 6), ("JUL", 7), ("AUG", 8),
      ("SEP", 9), ("OCT", 10), ("NOV", 11), ("DEC", 12)]
  | dow => [("SUN", 0), ("MON", 1), ("TUE", 2), ("WED", 3), ("THU", 4), ("FRI", 5), ("SAT", 6)]
  | _ => []

theorem bounds (f : Field) : 0 ≤ f.lo ∧ f.lo ≤ f.hi ∧ f.hi + 1 = f.size ∧ f.size ≤ 60 := by
  cases f <;> decide

end Field

abbrev Bits (n : Nat) := Vector Bool n

/-- The step of an element: at least 1, in 64 bits. -/
structure Step where
  val  : Int
  pos  : 1 ≤ val
  fits : val < 2 ^ 63
  deriving DecidableEq

def Step.one : Step := ⟨1, le_refl _, by decide⟩

def atom (f : Field) (s : Text) : Except Stop Int :=
  let s := trimSpace s
  match f.names.lookup (String.ofList (s.map toUpper)) with
  | some v => .ok v
  | none => match atoi s with
    | none => .error (.error ("cron " ++ f.name ++ ": " ++ (String.ofList s).quote ++
        " is not a number or a known name"))
    | some v =>
      if v < f.lo ∨ f.hi < v then .error (.error ("cron " ++ f.name ++ ": " ++ toString v ++ " is outside " ++
        toString f.lo ++ ".." ++ toString f.hi))
      else .ok v

/-- The step behind a slash. -/
def step (f : Field) (s : Text) : Except Stop Step :=
  match h : atoi s with
  | some n =>
    if hn : 1 ≤ n then .ok ⟨n, hn, atoi_lt h⟩
    else .error (.error ("cron " ++ f.name ++ ": bad step " ++ (String.ofList s).quote))
  | none => .error (.error ("cron " ++ f.name ++ ": bad step " ++ (String.ofList s).quote))

/-- Where an element without its step begins and ends. -/
def range (f : Field) (part : Text) (s : Step) : Except Stop (Int × Int) :=
  if part = ['*'] then .ok (f.lo, f.hi)
  else match cut '-' part with
    | (a, some b) => do
      let a ← atom f a
      let b ← atom f b
      if b < a then .error (.error ("cron " ++ f.name ++ ": range " ++ (String.ofList part).quote ++ " is inverted"))
      else return (a, b)
    | (v, none) => do
      let v ← atom f v
      return (v, if 1 < s.val then f.hi else v)

/-- `for v := from; v <= to; v += step { set[v] = true }`, from `v` on. -/
def fill (f : Field) (set : Bits f.size) (s : Step) (top v : Int) : Except Stop (Bits f.size) :=
  if v ≤ top then
    if h : 0 ≤ v ∧ v < f.size then
      fill f (set.set v.toNat true (by omega)) s top (wrap64 (v + s.val))
    else .error (.panic v f.size)
  else .ok set
termination_by if v < 0 then 0 else (top + 1 - v).toNat
decreasing_by
  have hs := s.pos
  have hf := s.fits
  have hsize := f.bounds.2.2.2
  have hwrap : wrap64 (v + s.val) = v + s.val ∨ wrap64 (v + s.val) < 0 := by
    unfold wrap64
    rw [Int.bmod_def]
    split <;> omega
  split <;> split <;> omega

/-- What one element of a list says: its first and its last value, and the step. -/
def element (f : Field) (part : Text) : Except Stop (Int × Int × Step) :=
  if part = [] then .error (.error ("cron " ++ f.name ++ ": empty list element"))
  else do
    let s ← match (cut '/' part).2 with
      | some s => step f s
      | none   => pure Step.one
    let (a, b) ← range f (cut '/' part).1 s
    return (a, b, s)

/-- One round of the loop of `parseInto`. -/
def parsePart (f : Field) (set : Bits f.size) (part : Text) : Except Stop (Bits f.size) := do
  let (a, b, s) ← element f part
  fill f set s b a

/-- `parseInto`, a fresh slice. -/
def parseInto (f : Field) (field : Text) : Except Stop (Bits f.size) :=
  (field.splitOn ',').foldlM (parsePart f) (Vector.replicate f.size false)

/-! ## Expressions -/

structure Expression where
  src           : String
  second        : Bits 60
  minute        : Bits 60
  hour          : Bits 24
  dom           : Bits 32
  month         : Bits 13
  dow           : Bits 7
  domRestricted : Bool
  dowRestricted : Bool
  deriving DecidableEq

def anySet (s : List Bool) : Bool := s.any id

def allSet (s : List Bool) : Bool := s.all id

/-- `set[i]`; no index of a calendar field is outside its slice. -/
def isSet {n : Nat} (set : Bits n) (i : Nat) : Bool := set[i]?.getD false

def rejectUnsatisfiable (e : Expression) : Except Stop Unit :=
  if !anySet e.second.toList || !anySet e.minute.toList || !anySet e.hour.toList || !anySet e.month.toList then
    .error (.error ("cron " ++ e.src.quote ++ ": a field matches nothing"))
  else if !anySet (e.dom.toList.drop 1) && !anySet e.dow.toList then
    .error (.error ("cron " ++ e.src.quote ++ ": no day can ever match"))
  else if !e.domRestricted || (e.dowRestricted && anySet e.dow.toList) then .ok ()
  -- 2024 is a leap year.
  else if (List.range' 1 12).any (fun m => isSet e.month m &&
      (List.range' 1 (Cal.daysIn m 2024)).any (fun d => isSet e.dom d)) then .ok ()
  else .error (.error ("cron " ++ e.src.quote ++ ": no day-of-month in the selected months can ever match"))

/-- `copy(e.dow[:], dow[:7])`, and 7 means Sunday as well. -/
def foldSunday (dow : Bits 8) : Bits 7 :=
  Vector.ofFn fun i => isSet dow i || (decide (i.val = 0) && isSet dow 7)

/-- The characters of the operators that are not supported. -/
def operators : Text := ['L', 'W', '#', '?']

/-- The six fields, read. -/
def parseFields (expr : String) (second minute hour dom month dow : Text) : Except Stop Expression := do
  let second ← parseInto .second second
  let minute ← parseInto .minute minute
  let hour ← parseInto .hour hour
  let dom ← parseInto .dom dom
  let month ← parseInto .month month
  let dow ← parseInto .dow dow
  let dow := foldSunday dow
  return ⟨expr, second, minute, hour, dom, month, dow, !allSet (dom.toList.drop 1), !allSet dow.toList⟩

def parse (expr : String) : Except Stop Expression :=
  match splitFields expr.toList with
  | [second, minute, hour, dom, month, dow] =>
    if [second, minute, hour, dom, month, dow].any (fun f => f.any (· ∈ operators)) then
      .error (.error ("cron " ++ expr.quote ++ ": L, W, # and ? are not supported"))
    else do
      let e ← parseFields expr second minute hour dom month dow
      rejectUnsatisfiable e
      return e
  | fields => .error (.error ("cron " ++ expr.quote ++ ": expected 6 fields, got " ++ toString fields.length))

example : (parse "0 30 3 * * MON-FRI").toOption.isSome = true := by decide +kernel

end Cron
end GoJob
