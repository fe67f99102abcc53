/-
  stdout and stderr, routed to the system log.

  The writers of standard output put their bytes in one line buffer, `s_line`, which goes to
  `oops_klog` in pieces at a newline, when it is full, and at a flush. What reaches the log is a
  list of payloads, in order. A write to another stream goes to its descriptor, through
  `oops_fs_write`, whose answer for a descriptor and the bytes left is a parameter.
-/
import OopsMesa.Lib.Lines

namespace OopsMesa.Runtime

open OopsMesa.Lib

/-! ## The line buffer -/

/-- The payload bound of one call of `oops_klog`, and the size of `s_line`. -/
def OOPS_KLOG_CHUNK : Nat := 96

def OOPS_LINE_MAX : Nat := 512

/-- `errno`, where a write here sets it. -/
inductive StreamErrno where
  | EIO | EBADF | ENOMEM
  deriving DecidableEq, Repr

/-- The first `s_line_len` bytes of `s_line`, the payloads logged so far, and `errno`. -/
structure Output where
  line : List UInt8
  log : List (List UInt8)
  errno : Option StreamErrno
  deriving DecidableEq, Repr

def Output.init : Output := ⟨[], [], none⟩

/-- A string without a NUL. -/
abbrev CString := { s : List UInt8 // 0 ∉ s }

/-- What a C function reads at a string: the bytes before the first NUL. -/
def upToNul (text : List UInt8) : List UInt8 := text.takeWhile (· ≠ 0)

/-- `klog_chunks`: the payloads, one for each turn of the loop. -/
def klogChunks (text : List UInt8) : List (List UInt8) :=
  if text = [] then []
  else upToNul (text.take OOPS_KLOG_CHUNK) :: klogChunks (text.drop OOPS_KLOG_CHUNK)
  termination_by text.length
  decreasing_by
    have hpos := List.length_pos_of_ne_nil ‹_›
    rw [List.length_drop]
    exact Nat.sub_lt hpos (by decide)

/-- `line_flush` -/
def lineFlush (o : Output) : Output :=
  if o.line.length > 0 then { o with line := [], log := o.log ++ klogChunks o.line } else o

/-- `oops_stderr_flush_partial` -/
def oopsStderrFlushPartial (o : Output) : Output := lineFlush o

/-- One turn of the loop of `line_append`. -/
def appendByte (o : Output) (c : UInt8) : Output :=
  if c = 10 then lineFlush o
  else if c = 13 then o
  else
    let o := if o.line.length = OOPS_LINE_MAX then lineFlush o else o
    { o with line := o.line ++ [c] }

/-- `line_append` -/
def lineAppend (o : Output) (text : List UInt8) : Output := text.foldl appendByte o

/-! ## Streams -/

/-- A `FILE`: one of the captured ones, or one that `fileno` gives a descriptor for. -/
inductive Stream where
  | stdout
  | stderr
  | file (fileno : Int)
  deriving DecidableEq, Repr

/-- `stream_is_captured` -/
def Stream.isCaptured : Stream → Bool
  | .stdout => true
  | .stderr => true
  | .file _ => false

/-- `fileno` -/
def Stream.fileno : Stream → Int
  | .stdout => 1
  | .stderr => 2
  | .file fd => fd

variable (oopsFsWrite : Int → List UInt8 → Int)

/-- `fd_write_all`, from where it has come to. -/
def fdWriteAll (fd : Int) (text : List UInt8) (o : Output) : Int × Output :=
  if text = [] then (0, o)
  else if oopsFsWrite fd text ≤ 0 then (-1, { o with errno := some StreamErrno.EIO })
  else fdWriteAll fd (text.drop (oopsFsWrite fd text).toNat) o
  termination_by text.length
  decreasing_by
    have hpos := List.length_pos_of_ne_nil ‹_›
    rw [List.length_drop]
    omega

/-- `stream_write` -/
def streamWrite (stream : Stream) (text : List UInt8) (o : Output) : Int × Output :=
  if stream.fileno < 0 then (-1, { o with errno := some StreamErrno.EBADF })
  else fdWriteAll oopsFsWrite stream.fileno text o

/-! ## The writers -/

/-- What a format and its arguments come to, unless that is an error: its length is an `int`. -/
abbrev Formatted := Option { text : List UInt8 // text.length ≤ 2147483647 }

/-- `vsnprintf` to a buffer of `size` bytes: what it returns, and what it writes before the NUL. -/
def vsnprintf (size : Nat) : Formatted → Int × List UInt8
  | none => (-1, [])
  | some text => (text.1.length, text.1.take (size - 1))

/-- The note that a line was cut. -/
def truncatedNote : List UInt8 :=
  "...the line above is truncated; no memory to format the rest".toUTF8.toList

/-- `emit_formatted`. `malloc` says whether there is memory. -/
def emitFormatted (stream : Stream) (f : Formatted) (malloc : Bool) (o : Output) : Int × Output :=
  let (n, buf) := vsnprintf OOPS_LINE_MAX f
  if n ≤ 0 then (n, o)
  else if n.toNat < OOPS_LINE_MAX then
    if !stream.isCaptured then
      let (rc, o) := streamWrite oopsFsWrite stream (buf.take n.toNat) o
      (if rc = 0 then n else -1, o)
    else (n, lineAppend o (buf.take n.toNat))
  else if !malloc then
    if !stream.isCaptured then (-1, { o with errno := some StreamErrno.ENOMEM })
    else
      let o := lineFlush (lineAppend o (buf.take (OOPS_LINE_MAX - 1)))
      (n, { o with log := o.log ++ [truncatedNote] })
  else
    let (_, big) := vsnprintf (n.toNat + 1) f
    if !stream.isCaptured then
      let (rc, o) := streamWrite oopsFsWrite stream (big.take n.toNat) o
      (if rc = 0 then n else -1, o)
    else (n, lineAppend o (big.take n.toNat))

def fprintf (stream : Stream) (f : Formatted) (malloc : Bool) (o : Output) : Int × Output :=
  emitFormatted oopsFsWrite stream f malloc o

def vfprintf (stream : Stream) (f : Formatted) (malloc : Bool) (o : Output) : Int × Output :=
  emitFormatted oopsFsWrite stream f malloc o

def printf (f : Formatted) (malloc : Bool) (o : Output) : Int × Output :=
  emitFormatted oopsFsWrite .stdout f malloc o

def vprintf (f : Formatted) (malloc : Bool) (o : Output) : Int × Output :=
  emitFormatted oopsFsWrite .stdout f malloc o

/-- The first `n` bytes of a memory. -/
def bytesAt (ptr : Nat → UInt8) (n : Nat) : List UInt8 := (List.range n).map ptr

def fwrite (ptr : Nat → UInt8) (size nmemb : UInt64) (stream : Stream) (o : Output) :
    UInt64 × Output :=
  let bytes := size * nmemb
  if size ≠ 0 ∧ bytes / size ≠ nmemb then (0, o)
  else if !stream.isCaptured then
    let (rc, o) := streamWrite oopsFsWrite stream (bytesAt ptr bytes.toNat) o
    (if rc = 0 then nmemb else 0, o)
  else (nmemb, lineAppend o (bytesAt ptr bytes.toNat))

/-- `EOF` is -1. -/
def fputs (s : CString) (stream : Stream) (o : Output) : Int × Output :=
  if !stream.isCaptured then
    let (rc, o) := streamWrite oopsFsWrite stream s.1 o
    (if rc = 0 then 0 else -1, o)
  else (0, lineAppend o s.1)

/-- `(char)c` -/
def charOf (c : Int) : UInt8 := UInt8.ofNat (c % 256).toNat

def fputc (c : Int) (stream : Stream) (o : Output) : Int × Output :=
  if !stream.isCaptured then
    let (rc, o) := streamWrite oopsFsWrite stream [charOf c] o
    (if rc = 0 then (charOf c).toNat else -1, o)
  else (c, lineAppend o [charOf c])

def puts (s : CString) (o : Output) : Int × Output := (0, lineFlush (lineAppend o s.1))

/-- A null stream is `none`. -/
def fflush (stream : Option Stream) (o : Output) : Int × Output :=
  match stream with
  | none => (0, lineFlush o)
  | some stream => (0, if stream.isCaptured then lineFlush o else o)

/-- `msg` is what the platform's `strerror` gives. -/
def perror (s msg : Option CString) (o : Output) : Output :=
  let o :=
    match s with
    | some s => if s.1 ≠ [] then lineAppend (lineAppend o s.1) [58, 32] else o
    | none => o
  let o :=
    match msg with
    | some msg => lineAppend o msg.1
    | none => o
  lineFlush o

/-- `write`. A null `buf` is `none`. -/
def write (fd : Int) (buf : Option (Nat → UInt8)) (nbyte : UInt64) (o : Output) : Int × Output :=
  match buf with
  | none => (0, o)
  | some buf =>
    if nbyte = 0 then (0, o)
    else if fd ≠ 1 ∧ fd ≠ 2 then
      let (rc, o) := fdWriteAll oopsFsWrite fd (bytesAt buf nbyte.toNat) o
      (if rc = 0 then nbyte.toInt64.toInt else -1, o)
    else (nbyte.toInt64.toInt, lineAppend o (bytesAt buf nbyte.toNat))

end OopsMesa.Runtime
