import Vr4300.Configuration.Basic
import Vr4300.Json.Basic

/-!
# Reading a configuration

A configuration is a JSON document. A section is an object, or an array that gives its settings in
order. Whatever is missing keeps its default; unknown keys are skipped and known ones must not repeat.
There is no other leniency: a number is a natural number in range, and `null` is not a default.

## Contents

* `Setting`: a named place in a record, with a reader for its value.
* `Configuration.ofJson?`, `Configuration.ofText?`, `Configuration.ofBytes`.
-/

namespace Vr4300

/-- A named place in a record, with a reader that puts a value there. -/
structure Setting (σ : Type) where
  /-- The key. -/
  name : String
  /-- Puts the value into the record, if it has the right type. -/
  read? : Json → σ → Option σ

namespace Setting

variable {σ τ : Type}

/-- A truth value. -/
def flag (name : String) (put : Bool → σ → σ) : Setting σ where
  name := name
  read?
    | .bool b, s => some (put b s)
    | _, _ => none

/-- A natural number below a bound. -/
def natural (name : String) (bound : Nat) (put : Nat → σ → σ) : Setting σ where
  name := name
  read?
    | .number n, s => do
      let v ← n.toNat?
      if v < bound then some (put v s) else none
    | _, _ => none

/-- A 64-bit number. -/
def word64 (name : String) (put : UInt64 → σ → σ) : Setting σ :=
  natural name UInt64.size fun v => put (UInt64.ofNat v)

/-- A 32-bit number. -/
def word32 (name : String) (put : UInt32 → σ → σ) : Setting σ :=
  natural name UInt32.size fun v => put (UInt32.ofNat v)

/-- Reads values in the order of the settings; there must not be more of them. -/
def readInOrder? : List (Setting σ) → List Json → σ → Option σ
  | _, [], s => some s
  | f :: fs, v :: vs, s => (f.read? v s).bind (readInOrder? fs vs)
  | [], _ :: _, _ => none

/-- Reads members by key. `seen` holds the known keys read so far. -/
def readByKey? (settings : List (Setting σ)) (seen : List String) :
    List (List Json.StringPart × Json) → σ → Option σ
  | [], s => some s
  | (key, v) :: rest, s => do
    let key ← Json.StringPart.text? key
    match settings.find? (·.name == key) with
    | none => readByKey? settings seen rest s
    | some f =>
      if seen.contains key then none
      else readByKey? settings (key :: seen) rest (← f.read? v s)

/-- Reads a record from an object or an array. -/
def readAll? (settings : List (Setting σ)) : Json → σ → Option σ
  | .array items, s => readInOrder? settings items s
  | .object members, s => readByKey? settings [] members s
  | _, _ => none

/-- A record inside a record. -/
def record (name : String) (get : σ → τ) (put : τ → σ → σ) (settings : List (Setting τ)) :
    Setting σ where
  name := name
  read? v s := (readAll? settings v (get s)).map (put · s)

end Setting

namespace Configuration

/-- The general settings. -/
def generalSettings : List (Setting GeneralSettings) :=
  [.flag "trace_instructions" fun b s => { s with traceInstructions := b },
    .word64 "start_pc" fun v s => { s with startPc := v },
    .flag "idle_loop_skip" fun b s => { s with idleLoopSkip := b }]

/-- The settings of main memory. -/
def memorySettings : List (Setting MemorySettings) :=
  [.word64 "ram_size" fun v s => { s with ramSize := v }]

/-- The settings of the processor. -/
def processorSettings : List (Setting ProcessorSettings) :=
  [.word64 "initial_status" fun v s => { s with initialStatus := v },
    .word64 "initial_config" fun v s => { s with initialConfig := v }]

/-- The settings of fragment recording. -/
def recompilerSettings : List (Setting RecompilerSettings) :=
  [.flag "enabled" fun b s => { s with enabled := b },
    .word32 "hot_threshold" fun v s => { s with hotThreshold := v },
    .word64 "max_fragment_ops" fun v s => { s with maxFragmentOps := v }]

/-- All settings. -/
def settings : List (Setting Configuration) :=
  [.record "general" general (fun v s => { s with general := v }) generalSettings,
    .record "memory" memory (fun v s => { s with memory := v }) memorySettings,
    .record "cpu" cpu (fun v s => { s with cpu := v }) processorSettings,
    .record "dynarec" recompiler (fun v s => { s with recompiler := v }) recompilerSettings]

/-- The configuration in a JSON document. -/
def ofJson? (document : Json) : Option Configuration :=
  Setting.readAll? settings document {}

/-- The configuration in a JSON text. -/
def ofText? (text : String) : Option Configuration :=
  (Json.ofText? text).bind ofJson?

/-- Why a file holds no configuration. -/
inductive ReadError where
  /-- The bytes are not text. -/
  | notText
  /-- The text is not a configuration. -/
  | malformed
deriving DecidableEq, Repr, Inhabited

/-- The configuration in the bytes of a file. -/
def ofBytes (bytes : ByteArray) : Except ReadError Configuration :=
  match String.fromUTF8? bytes with
  | none => .error .notText
  | some text =>
    match ofText? text with
    | none => .error .malformed
    | some c => .ok c

end Configuration

end Vr4300
