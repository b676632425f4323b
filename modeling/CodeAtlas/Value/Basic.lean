import CodeAtlas.Text.Digit
import CodeAtlas.Text.Quoted
import CodeAtlas.Value.Binary64

/-!
# Values

The data of messages and settings files. A record keeps its fields in the order
in which they first appeared; a field that appears again takes the later value
in the earlier place.
-/

namespace CodeAtlas

inductive Value
  | null
  | boolean (b : Bool)
  | integer (n : Int)
  | real (x : Binary64)
  | text (s : String)
  | list (items : List Value)
  | record (fields : List (String × Value))
  deriving Repr, Inhabited

namespace Value

mutual

def decEq : (a b : Value) → Decidable (a = b)
  | .null, .null => isTrue rfl
  | .boolean a, .boolean b =>
    if h : a = b then isTrue (h ▸ rfl) else isFalse fun e => h (by injection e)
  | .integer a, .integer b =>
    if h : a = b then isTrue (h ▸ rfl) else isFalse fun e => h (by injection e)
  | .real a, .real b =>
    if h : a = b then isTrue (h ▸ rfl) else isFalse fun e => h (by injection e)
  | .text a, .text b =>
    if h : a = b then isTrue (h ▸ rfl) else isFalse fun e => h (by injection e)
  | .list a, .list b =>
    match decEqItems a b with
    | isTrue h => isTrue (h ▸ rfl)
    | isFalse h => isFalse fun e => h (by injection e)
  | .record a, .record b =>
    match decEqFields a b with
    | isTrue h => isTrue (h ▸ rfl)
    | isFalse h => isFalse fun e => h (by injection e)
  | .null, .boolean _ | .null, .integer _ | .null, .real _ | .null, .text _ | .null, .list _
  | .null, .record _ | .boolean _, .null | .boolean _, .integer _ | .boolean _, .real _
  | .boolean _, .text _ | .boolean _, .list _ | .boolean _, .record _ | .integer _, .null
  | .integer _, .boolean _ | .integer _, .real _ | .integer _, .text _ | .integer _, .list _
  | .integer _, .record _ | .real _, .null | .real _, .boolean _ | .real _, .integer _
  | .real _, .text _ | .real _, .list _ | .real _, .record _ | .text _, .null | .text _, .boolean _
  | .text _, .integer _ | .text _, .real _ | .text _, .list _ | .text _, .record _
  | .list _, .null | .list _, .boolean _ | .list _, .integer _ | .list _, .real _
  | .list _, .text _ | .list _, .record _ | .record _, .null | .record _, .boolean _
  | .record _, .integer _ | .record _, .real _ | .record _, .text _ | .record _, .list _ =>
    isFalse (by simp)

def decEqItems : (a b : List Value) → Decidable (a = b)
  | [], [] => isTrue rfl
  | [], _ :: _ => isFalse (by simp)
  | _ :: _, [] => isFalse (by simp)
  | a :: as, b :: bs =>
    match decEq a b, decEqItems as bs with
    | isTrue h, isTrue t => isTrue (h ▸ t ▸ rfl)
    | isFalse h, _ => isFalse fun e => h (by injection e)
    | _, isFalse t => isFalse fun e => t (by injection e)

def decEqFields : (a b : List (String × Value)) → Decidable (a = b)
  | [], [] => isTrue rfl
  | [], _ :: _ => isFalse (by simp)
  | _ :: _, [] => isFalse (by simp)
  | (k, a) :: as, (l, b) :: bs =>
    if hk : k = l then
      match decEq a b, decEqFields as bs with
      | isTrue h, isTrue t => isTrue (hk ▸ h ▸ t ▸ rfl)
      | isFalse h, _ => isFalse fun e => h (by simp at e; exact e.1.2)
      | _, isFalse t => isFalse fun e => t (by simp at e; exact e.2)
    else isFalse fun e => hk (by simp at e; exact e.1.1)

end

instance : DecidableEq Value := decEq

/-- The value of a field of a record. -/
def field? (v : Value) (key : String) : Option Value :=
  match v with
  | .record fields => fields.lookup key
  | _ => none

/-- Null, false, zero and everything empty do not count as given. -/
def isGiven : Value → Bool
  | .null => false
  | .boolean b => b
  | .integer n => n != 0
  | .real x => !x.isZero
  | .text s => s != ""
  | .list items => !items.isEmpty
  | .record fields => !fields.isEmpty

/-- The integer that a value equals: truth values count as zero and one. -/
def integer? : Value → Option Int
  | .boolean b => some (if b then 1 else 0)
  | .integer n => some n
  | .real x => x.integer?
  | _ => none

/-- Whether two values are equal, numbers of all kinds compared by their size. -/
def same (a b : Value) : Bool :=
  match a.integer?, b.integer? with
  | some m, some n => m == n
  | none, none => decide (a = b)
  | _, _ => false

/-- The name of a value's kind in messages. -/
def kindName : Value → String
  | .null => "NoneType"
  | .boolean _ => "bool"
  | .integer _ => "int"
  | .real _ => "float"
  | .text _ => "str"
  | .list _ => "list"
  | .record _ => "dict"

mutual

/-- A value as messages quote it. -/
def literal : Value → String
  | .null => "None"
  | .boolean b => if b then "True" else "False"
  | .integer n => toString n
  | .real x => x.text
  | .text s => String.ofList (Text.quoted s.toList)
  | .list items => "[" ++ ", ".intercalate (literals items) ++ "]"
  | .record fields => "\x7b" ++ ", ".intercalate (fieldLiterals fields) ++ "\x7d"

def literals : List Value → List String
  | [] => []
  | v :: vs => v.literal :: literals vs

def fieldLiterals : List (String × Value) → List String
  | [] => []
  | (k, v) :: fs => (String.ofList (Text.quoted k.toList) ++ ": " ++ v.literal) :: fieldLiterals fs

end

mutual

/-- Whether messages can quote a value: all integers in it can be written. -/
def isWritable : Value → Bool
  | .integer n => Text.isWritable n
  | .list items => allWritable items
  | .record fields => fieldsWritable fields
  | _ => true

def allWritable : List Value → Bool
  | [] => true
  | v :: vs => v.isWritable && allWritable vs

def fieldsWritable : List (String × Value) → Bool
  | [] => true
  | (_, v) :: fs => v.isWritable && fieldsWritable fs

end

/-- A value as messages show it: a text as it is, anything else quoted. -/
def display : Value → String
  | .text s => s
  | v => v.literal

/-- Why a value is no integer. -/
inductive NotInteger
  | kind (name : String)
  | digits (s : String)
  | tooLong (digits : Nat)
  | notANumber
  | unbounded
  deriving DecidableEq, Repr

/-- The integer a value stands for: truth values count as zero and one, a fraction is cut off, a
text is read. -/
def toInteger : Value → Except NotInteger Int
  | .boolean b => .ok (if b then 1 else 0)
  | .integer n => .ok n
  | .real x =>
    match x with
    | .notANumber => .error .notANumber
    | .infinite _ => .error .unbounded
    | x => .ok (x.truncate?.getD 0)
  | .text s =>
    match Text.readInteger s.toList with
    | .ok n => .ok n
    | .error .malformed => .error (.digits s)
    | .error (.tooLong n) => .error (.tooLong n)
  | v => .error (.kind v.kindName)

/-- How many characters of a text that is no integer are shown. -/
def shownLength : Nat := 200

/-- Wording of the reason. -/
def NotInteger.message : NotInteger → String
  | .kind name =>
    s!"int() argument must be a string, a bytes-like object or a real number, not '{name}'"
  | .digits s =>
    "invalid literal for int() with base 10: " ++
      String.ofList ((Text.quoted s.toList).take shownLength)
  | .tooLong n =>
    s!"Exceeds the limit ({Text.digitLimit} digits) for integer string conversion: " ++
      s!"value has {n} digits; use sys.set_int_max_str_digits() to increase the limit"
  | .notANumber => "cannot convert float NaN to integer"
  | .unbounded => "cannot convert float infinity to integer"

end Value

end CodeAtlas
