/-! Writing TOML text: the quoting of texts, and lists of numbers with one to a line. -/
namespace GridSeries.Toml

/-- The length of the longest run of a character. -/
def longestRun (c : Char) (cs : List Char) : Nat :=
  (cs.foldl (fun (run, longest) d => if d = c then (run + 1, max longest (run + 1)) else (0, longest)) (0, 0)).2

/-- Controls that only an escape can stand for. -/
def needsEscape (c : Char) : Bool :=
  (decide (c.toNat < 0x20) && c != '\t' && c != '\n') || decide (c.toNat = 0x7F)

def hexDigits (n : Nat) : List Char :=
  [n / 4096 % 16, n / 256 % 16, n / 16 % 16, n % 16].map fun d => (Nat.digitChar d).toUpper

def escape (c : Char) : List Char :=
  if c = '\x08' then ['\\', 'b']
  else if c = '\t' then ['\\', 't']
  else if c = '\n' then ['\\', 'n']
  else if c = '\x0c' then ['\\', 'f']
  else if c = '\r' then ['\\', 'r']
  else if c = '\\' then ['\\', '\\']
  else if c.toNat < 0x20 ∨ c.toNat = 0x7F then '\\' :: 'u' :: hexDigits c.toNat
  else [c]

/-- The body of a text in double quotes: up to `most` quotes stand in a row without an escape. -/
def basicBody (lines : Bool) (most : Nat) : Nat → List Char → List Char
  | _, [] => []
  | run, '"' :: rest =>
    if run < most then '"' :: basicBody lines most (run + 1) rest
    else '\\' :: '"' :: basicBody lines most 0 rest
  | _, c :: rest =>
    (if lines && c == '\n' then ['\n'] else escape c) ++ basicBody lines most 0 rest

/-- The plainest quoting that a text allows: double quotes where nothing in it has a meaning there, then single
quotes, then the quotes of several lines, and escapes last. -/
def quote (s : String) : String :=
  let cs := s.toList
  let controls := cs.any needsEscape
  let backslash := cs.contains '\\'
  let newline := cs.contains '\n'
  let double := longestRun '"' cs
  let single := longestRun '\'' cs
  let first := if newline then "\n" else ""
  if !controls && !backslash && double == 0 && !newline then
    "\"" ++ String.ofList (basicBody false 0 0 cs) ++ "\""
  else if !controls && single == 0 && !newline then "'" ++ s ++ "'"
  else if !controls && !backslash && decide (double ≤ 2) then
    "\"\"\"" ++ first ++ String.ofList (basicBody true 2 0 cs) ++ "\"\"\""
  else if !controls && decide (single ≤ 2) then "'''" ++ first ++ s ++ "'''"
  else if newline then "\"\"\"" ++ first ++ String.ofList (basicBody true 2 0 cs) ++ "\"\"\""
  else "\"" ++ String.ofList (basicBody false 0 0 cs) ++ "\""

/-- A list of numbers; two or more stand one to a line. -/
def numbers (ns : List Nat) : String :=
  match ns with
  | [] => "[]"
  | [n] => "[" ++ toString n ++ "]"
  | _ => "[\n" ++ String.join (ns.map fun n => "    " ++ toString n ++ ",\n") ++ "]"

def line (key value : String) : String := key ++ " = " ++ value ++ "\n"

end GridSeries.Toml
