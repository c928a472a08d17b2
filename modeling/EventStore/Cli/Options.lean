import EventStore.Cli.Number
import EventStore.Net.Addr

/-!
# The node's command line

The node takes long options only (`--name value` or `--name=value`), one flag
(`--skip-db-verify`), and `-h`/`--help` and `-V`/`--version`, which end the parse. Reading follows
the usual rules of command-line parsers:

* an option's value is the next argument unless it starts with `-` (which is read as a flag
  instead); `--name=value` attaches any value, `-5` included;
* a value is checked only when the option is complete: when the next option or flag starts, or at
  the end; an unknown option or a stray value fails before that;
* `--` ends the options: every argument after it is a stray value;
* an option given twice, or a flag given twice, conflicts; `--gossip-seed` may repeat and splits
  its value at commas.

Failures carry the name of their kind and the first line of their text.
-/

namespace EventStore

/-- The kinds of command-line failure, and help and version requests. -/
inductive CliErrorKind where
  | unknownArgument
  | valueValidation
  | invalidValue
  | argumentConflict
  | tooManyValues
  | displayHelp
  | displayVersion
  deriving DecidableEq, Repr, Inhabited

/-- The name of a kind of command-line failure. -/
def CliErrorKind.name : CliErrorKind → String
  | .unknownArgument => "UnknownArgument"
  | .valueValidation => "ValueValidation"
  | .invalidValue => "InvalidValue"
  | .argumentConflict => "ArgumentConflict"
  | .tooManyValues => "TooManyValues"
  | .displayHelp => "DisplayHelp"
  | .displayVersion => "DisplayVersion"

/-- A command-line failure with the first line of its text. -/
structure CliError where
  kind : CliErrorKind
  message : String
  deriving Repr, Inhabited

/-- What an option's value is. -/
inductive ValueKind where
  /-- A path, which may not be empty. -/
  | path
  /-- A socket address. -/
  | addr
  /-- A 64-bit unsigned count. -/
  | count
  /-- A 32-bit signed number, read as a 64-bit one and then checked against the 32-bit range. -/
  | priority
  /-- A 32-bit size with an optional `k` or `m` suffix, trimmed and lowercased first. -/
  | byteSize
  /-- Milliseconds as a trimmed 64-bit unsigned number. -/
  | millis
  deriving DecidableEq, Repr, Inhabited

/-- An option that takes a value. -/
structure OptionSpec where
  long : String
  valueName : String
  kind : ValueKind
  /-- Whether the option may repeat, its values split at commas. -/
  repeated : Bool := false
  deriving Repr, Inhabited

/-- A value read for an option. -/
inductive CliValue where
  | text (s : String)
  | addr (a : SocketAddr)
  | num (n : Int)
  deriving Repr, Inhabited

/-- What the node was told on its command line. -/
structure NodeParams where
  dataDir : String := "/var/lib/evstored"
  internalBind : SocketAddr := SocketAddr.loopback 1112
  internalAdvertise : Option SocketAddr := none
  externalTcp : Option SocketAddr := none
  externalHttp : Option SocketAddr := none
  clusterSize : Nat := 1
  nodePriority : Int := 0
  gossipSeeds : List SocketAddr := []
  chunkSize : Nat := 256 * 1024 * 1024
  verifyHashes : Bool := true
  gossipIntervalMs : Nat := 1000
  gossipTimeoutMs : Nat := 2500
  prepareTimeoutMs : Nat := 2000
  commitTimeoutMs : Nat := 2000
  epochCacheSize : Nat := 1000
  deriving Repr, Inhabited

/-- How long a replica waits for the master to answer a forwarded write. -/
def NodeParams.forwardingTimeoutMs (p : NodeParams) : Nat :=
  p.prepareTimeoutMs + p.commitTimeoutMs + 300

/-- How an option is shown in messages: `--name <VALUE>`. -/
def OptionSpec.display (o : OptionSpec) : String := "--" ++ o.long ++ " <" ++ o.valueName ++ ">"

namespace Cli

/-- The program's name and version. -/
def versionLine : String := "evstored 0.1.0"

/-- The first line of the help text. -/
def aboutLine : String := "Clustered replicated event store node"

/-- The options that take values. -/
def optionSpecs : List OptionSpec :=
  [{ long := "data-dir", valueName := "DATA_DIR", kind := .path },
   { long := "int-ip-port", valueName := "INTERNAL_BIND", kind := .addr },
   { long := "int-advertise", valueName := "INTERNAL_ADVERTISE", kind := .addr },
   { long := "ext-tcp-advertise", valueName := "EXTERNAL_TCP", kind := .addr },
   { long := "ext-http-advertise", valueName := "EXTERNAL_HTTP", kind := .addr },
   { long := "cluster-size", valueName := "CLUSTER_SIZE", kind := .count },
   { long := "node-priority", valueName := "NODE_PRIORITY", kind := .priority },
   { long := "gossip-seed", valueName := "GOSSIP_SEEDS", kind := .addr, repeated := true },
   { long := "chunk-size", valueName := "CHUNK_SIZE", kind := .byteSize },
   { long := "gossip-interval-ms", valueName := "GOSSIP_INTERVAL", kind := .millis },
   { long := "gossip-timeout-ms", valueName := "GOSSIP_TIMEOUT", kind := .millis },
   { long := "prepare-timeout-ms", valueName := "PREPARE_TIMEOUT", kind := .millis },
   { long := "commit-timeout-ms", valueName := "COMMIT_TIMEOUT", kind := .millis }]

/-- The flag that turns hash verification off. -/
def skipVerifyFlag : String := "skip-db-verify"

/-- A failure with the standard prefix. -/
def failure (kind : CliErrorKind) (text : String) : CliError := ⟨kind, "error: " ++ text⟩

/-- An argument that fits nowhere. -/
def unknown (arg : String) : CliError := failure .unknownArgument s!"unexpected argument '{arg}' found"

/-- An option without a value. -/
def emptyValue (o : OptionSpec) : CliError :=
  let shown := o.display
  failure .invalidValue s!"a value is required for '{shown}' but none was supplied"

/-- A value its option refuses, with the reason. -/
def invalid (o : OptionSpec) (value reason : String) : CliError :=
  let shown := o.display
  failure .valueValidation s!"invalid value '{value}' for '{shown}': {reason}"

/-- An argument given twice. -/
def conflict (display : String) : CliError :=
  failure .argumentConflict s!"the argument '{display}' cannot be used multiple times"

/-- A value attached to a flag. -/
def tooMany (value display : String) : CliError :=
  failure .tooManyValues s!"unexpected value '{value}' for '{display}' found; no more were expected"

/-- Reads a size with an optional unit suffix. -/
def parseByteSize (raw : String) : Except String Nat :=
  let s := NumberText.lower (NumberText.trim raw)
  let (num, mul) :=
    if s.endsWith "k" then (s.dropEnd 1 |>.toString, 1024)
    else if s.endsWith "m" then (s.dropEnd 1 |>.toString, 1024 * 1024)
    else (s, 1)
  match NumberText.parseUnsigned 32 num with
  | .error e => .error e.message
  | .ok n => if n * mul < Nat.pow 2 32 then .ok (n * mul) else .error s!"{s} does not fit in 4GiB"

/-- Reads one value of an option. -/
def parseValue (o : OptionSpec) (v : String) : Except CliError CliValue :=
  match o.kind with
  | .path => if v.isEmpty then .error (emptyValue o) else .ok (.text v)
  | .addr =>
    match SocketAddr.ofText? v with
    | some a => .ok (.addr a)
    | none => .error (invalid o v "invalid socket address syntax")
  | .count =>
    match NumberText.parseUnsigned 64 v with
    | .ok n => .ok (.num n)
    | .error e => .error (invalid o v e.message)
  | .priority =>
    match NumberText.parseSigned 64 v with
    | .ok n =>
      if -Int.pow 2 31 ≤ n ∧ n < Int.pow 2 31 then .ok (.num n)
      else .error (invalid o v s!"{n} is not in -2147483648..=2147483647")
    | .error e => .error (invalid o v e.message)
  | .byteSize =>
    match parseByteSize v with
    | .ok n => .ok (.num n)
    | .error reason => .error (invalid o v reason)
  | .millis =>
    match NumberText.parseUnsigned 64 (NumberText.trim v) with
    | .ok n => .ok (.num n)
    | .error e => .error (invalid o v e.message)

/-- Where a parse stands. -/
structure ParseState where
  /-- Options read so far, with their values. -/
  values : List (String × List CliValue) := []
  skipVerify : Bool := false
  /-- The option whose raw values wait to be checked. -/
  pending : Option (OptionSpec × List String) := none
  /-- The option that takes the next argument as its value. -/
  expecting : Option OptionSpec := none
  /-- Whether `--` was seen. -/
  afterEscape : Bool := false
  deriving Inhabited

/-- Completes an option with its raw values: it needs one, may not repeat unless it is
repeatable, and each value must read. -/
def complete (st : ParseState) (o : OptionSpec) (raw : List String) : Except CliError ParseState := do
  if raw.isEmpty then throw (emptyValue o)
  let seen := st.values.find? (·.1 == o.long)
  if !o.repeated && seen.isSome then throw (conflict o.display)
  let pieces := if o.repeated then raw.flatMap (·.splitOn ",") else raw
  let vals ← pieces.mapM (parseValue o)
  let values := match seen with
    | some _ => st.values.map fun (k, vs) => if k == o.long then (k, vs ++ vals) else (k, vs)
    | none => st.values ++ [(o.long, vals)]
  pure { st with values }

/-- Completes the option waiting for its values, if any. -/
def resolvePending (st : ParseState) : Except CliError ParseState :=
  match st.pending with
  | some (o, raw) => complete { st with pending := none } o raw
  | none => .ok st

/-- A stray value: whatever waits is completed quietly, then the value is refused. -/
def stray (arg : String) : Except CliError ParseState := .error (unknown arg)

/-- Reads one argument. -/
def readArg (st : ParseState) (arg : String) : Except CliError ParseState :=
  if st.afterEscape then stray arg
  else if arg = "--" then .ok { st with afterEscape := true }
  else if arg.startsWith "--" then
    let body := (arg.drop 2).toString
    let (name, attached) : String × Option String :=
      match body.splitOn "=" with
      | [n] => (n, none)
      | n :: rest => (n, some ("=".intercalate rest))
      | [] => (body, none)
    if name.isEmpty then .error (unknown "--")
    else match optionSpecs.find? (·.long == name) with
      | some o =>
        match attached with
        | some v => do
          let st ← resolvePending st
          let st ← complete st o [v]
          pure { st with expecting := none }
        | none => do
          let st ← resolvePending st
          pure { st with pending := some (o, []), expecting := some o }
      | none =>
        if name = skipVerifyFlag then
          match attached with
          | some v => .error (tooMany v ("--" ++ skipVerifyFlag))
          | none => do
            let st ← resolvePending st
            if st.skipVerify then throw (conflict ("--" ++ skipVerifyFlag))
            pure { st with skipVerify := true, expecting := none }
        else if name = "help" then
          match attached with
          | some v => .error (tooMany v "--help")
          | none => do
            let _ ← resolvePending st
            throw ⟨.displayHelp, aboutLine⟩
        else if name = "version" then
          match attached with
          | some v => .error (tooMany v "--version")
          | none => do
            let _ ← resolvePending st
            throw ⟨.displayVersion, versionLine⟩
        else .error (unknown ("--" ++ name))
  else if arg.startsWith "-" && arg != "-" then
    match arg.toList with
    | _ :: 'h' :: _ => do
      let _ ← resolvePending st
      throw ⟨.displayHelp, aboutLine⟩
    | _ :: 'V' :: _ => do
      let _ ← resolvePending st
      throw ⟨.displayVersion, versionLine⟩
    | _ :: c :: _ => .error (unknown (String.ofList ['-', c]))
    | _ => stray arg
  else
    match st.expecting with
    | some o =>
      let raw := match st.pending with
        | some (_, vs) => vs
        | none => []
      .ok { st with pending := some (o, raw ++ [arg]), expecting := none }
    | none => stray arg

/-- Reads the arguments in order. -/
def readArgs : List String → ParseState → Except CliError ParseState
  | [], st => resolvePending st
  | a :: rest, st => do readArgs rest (← readArg st a)

/-- The single value read for an option. -/
def valueOf? (st : ParseState) (long : String) : Option CliValue :=
  (st.values.find? (·.1 == long)).bind fun (_, vs) => vs.head?

/-- An address read for an option. -/
def addrOf? (st : ParseState) (long : String) : Option SocketAddr :=
  match valueOf? st long with
  | some (.addr a) => some a
  | _ => none

/-- A number read for an option, or a default. -/
def numOf (st : ParseState) (long : String) (dflt : Int) : Int :=
  match valueOf? st long with
  | some (.num n) => n
  | _ => dflt

/-- The parameters a successful parse gives, defaults filled in. -/
def toParams (st : ParseState) : NodeParams :=
  { dataDir := match valueOf? st "data-dir" with
      | some (.text s) => s
      | _ => "/var/lib/evstored",
    internalBind := (addrOf? st "int-ip-port").getD (SocketAddr.loopback 1112),
    internalAdvertise := addrOf? st "int-advertise",
    externalTcp := addrOf? st "ext-tcp-advertise",
    externalHttp := addrOf? st "ext-http-advertise",
    clusterSize := (numOf st "cluster-size" 1).toNat,
    nodePriority := numOf st "node-priority" 0,
    gossipSeeds := ((st.values.find? (·.1 == "gossip-seed")).map (·.2)).getD [] |>.filterMap fun
      | .addr a => some a
      | _ => none,
    chunkSize := (numOf st "chunk-size" (256 * 1024 * 1024)).toNat,
    verifyHashes := !st.skipVerify,
    gossipIntervalMs := (numOf st "gossip-interval-ms" 1000).toNat,
    gossipTimeoutMs := (numOf st "gossip-timeout-ms" 2500).toNat,
    prepareTimeoutMs := (numOf st "prepare-timeout-ms" 2000).toNat,
    commitTimeoutMs := (numOf st "commit-timeout-ms" 2000).toNat }

/-- Parses the arguments after the program name. -/
def parse (args : List String) : Except CliError NodeParams :=
  (readArgs args {}).map toParams

end Cli

end EventStore
