import Mathlib.Order.MinMax
import SgxErlang.Lib.Layout
import SgxErlang.Rsa.Lifecycle

/-!
# The launch token

`initialize_enclave` of `erlang-nif_SSL/App/App.c` keeps the launch token of the enclave in a
file, `enclave.token` in the home directory or else in the working directory: it hands the
token in the file to `sgx_create_enclave`, and saves the one it gets back if this has been
updated.  Any of the file operations may fail, and a write may stop half-way.  None of this
makes the function fail; and a token that is handed over is never a part of one.

A path without a home directory is relative: the working directory is taken to stay the same
between calls.  Nobody else is taken to write to the token file.

## Main definitions

* `TokenStore` — the files, the enclaves, and a log of the creations.
* `createWithToken` — `initialize_enclave`.

## Main results

* `whole_of_run` — where the tokens come from, whatever fails, and what becomes of the enclaves.
* `latest_of_run` — that it is the latest one, if nothing fails.
-/

namespace SgxErlang.Rsa

/-- A path, as a C string without its terminator. -/
abbrev Path := List Byte

/-- `sgx_launch_token_t`. -/
abbrev Token := Vector Byte 1024

/-- `TOKEN_FILENAME`. -/
def tokenFilename : Path := literal ['e', 'n', 'c', 'l', 'a', 'v', 'e', '.', 't', 'o', 'k', 'e', 'n']

/-- `MAX_PATH`, that is `FILENAME_MAX`. -/
def maxPath : ℕ := 4096

/-- What happens outside the code during one call. -/
structure HostEnv where
  /-- `getpwuid(getuid())`, and the directory in its entry. -/
  passwd : Option (Option Path)
  /-- A file that exists can be opened for reading. -/
  opensRead : Bool
  /-- A file can be opened for writing, and is created if need be. -/
  opensWrite : Bool
  /-- How many bytes can be read. -/
  readLimit : ℕ
  /-- The file can be opened again, for writing. -/
  reopens : Bool
  /-- How many bytes can be written. -/
  writeLimit : ℕ
  /-- `sgx_create_enclave`: the id of the new enclave, and the token if it is updated. -/
  create : Token → Option (ℕ × Option Token)

/-- One creation: the token that is handed over, and what comes of it. -/
structure Creation where
  token : Token
  result : Option (ℕ × Option Token)

/-- The token that a creation leaves to be saved. -/
def Creation.updated (c : Creation) : Option Token := c.result.bind Prod.snd

/-- What `initialize_enclave` returns after a creation. -/
def Creation.ret (c : Creation) : ℤ :=
  match c.result with
  | some _ => 0
  | none => -1

/-- What a call works on. -/
structure TokenStore where
  /-- The content of the files that exist. -/
  files : Path → Option (List Byte)
  vm : Vm
  /-- All creations, in order. -/
  log : List Creation

/-- No files, and no enclaves yet. -/
def TokenStore.init : TokenStore := { files := fun _ => none, vm := .init, log := [] }

/-- How a file has been opened. -/
inductive Mode where
  | read | write
  deriving DecidableEq

/-! ## The code -/

/-- The path of the token. -/
def tokenPath (homeDir : Option Path) : Path :=
  match homeDir with
  | some home =>
      if home.length + 1 + (tokenFilename.length + 1) + 1 ≤ maxPath then
        home ++ literal ['/'] ++ tokenFilename
      else tokenFilename
  | none => tokenFilename

/-- `fopen(token_path, "rb")`, and `fopen(token_path, "wb")` if there is no such file or it
cannot be read. -/
def openToken (e : HostEnv) (path : Path) : Exec TokenStore (Option Mode) := do
  let s ← get
  if (s.files path).isSome && e.opensRead then pure (some .read)
  else if e.opensWrite then
    set { s with files := Function.update s.files path (some []) }
    pure (some .write)
  else pure none

/-- `fread`, and the test of what has been read.  Nothing can be read from a file that is
open for writing. -/
def readToken (e : HostEnv) (path : Path) (fp : Option Mode) : Exec TokenStore Token := do
  let s ← get
  match fp, s.files path with
  | some .read, some content =>
      let readNum := min 1024 (min content.length e.readLimit)
      if readNum = 1024 then pure ((Layout.array 1024).get content)
      else pure (Vector.replicate 1024 0)
  | _, _ => pure (Vector.replicate 1024 0)

/-- Code that works on the enclaves. -/
def onVm {α : Type} (p : Exec Vm α) : Exec TokenStore α := do
  let s ← get
  let (x, vm) ← liftM (p.run s.vm)
  set { s with vm := vm }
  pure x

/-- `sgx_create_enclave`: whether it succeeds, and the token if it is updated. -/
def createEnclave (e : HostEnv) (token : Token) : Exec TokenStore (Bool × Option Token) := do
  let result := e.create token
  let ok ← onVm (sgxCreateEnclave (result.map Prod.fst))
  modify fun s => { s with log := s.log ++ [⟨token, result⟩] }
  pure (ok, result.bind Prod.snd)

/-- `freopen(token_path, "wb", fp)` and `fwrite`. -/
def saveToken (e : HostEnv) (path : Path) (token : Token) : Exec TokenStore Unit :=
  if e.reopens then
    modify fun s => { s with
      files := Function.update s.files path (some (token.toList.take e.writeLimit)) }
  else pure ()

/-- `initialize_enclave`.  Without an entry in the password file the directory is read
through a null pointer. -/
def createWithToken (e : HostEnv) : Exec TokenStore ℤ := do
  match e.passwd with
  | none => Exec.crash
  | some homeDir =>
      let path := tokenPath homeDir
      let fp ← openToken e path
      let token ← readToken e path fp
      let (ok, updated) ← createEnclave e token
      if ok then
        match updated, fp with
        | some token', some _ => do
            saveToken e path token'
            pure 0
        | _, _ => pure 0
      else pure (-1)

/-! ## One call -/

/-- The enclaves after a creation. -/
def Vm.afterCreate (s : Vm) : Option ℕ → Vm
  | none => s
  | some eid =>
      { s with
        globalEid := eid, enclaves := Function.update s.enclaves eid (some .init)
        issued := eid :: s.issued }

theorem run_sgxCreateEnclave (created : Option ℕ) (s : Vm) :
    (sgxCreateEnclave created).run s = .ret (created.isSome, s.afterCreate created) := by
  cases created <;> rfl

namespace TokenStore

/-- The files after the token file has been opened. -/
def opened (s : TokenStore) (e : HostEnv) (path : Path) : Path → Option (List Byte) :=
  if (s.files path).isSome && e.opensRead then s.files
  else if e.opensWrite then Function.update s.files path (some []) else s.files

/-- The token that is handed over. -/
def handed (s : TokenStore) (e : HostEnv) (path : Path) : Token :=
  match s.files path with
  | some content =>
      if e.opensRead && decide (1024 ≤ content.length) && decide (1024 ≤ e.readLimit) then
        (Layout.array 1024).get content
      else Vector.replicate 1024 0
  | none => Vector.replicate 1024 0

/-- The creation of a call. -/
def creation (s : TokenStore) (e : HostEnv) (path : Path) : Creation :=
  ⟨s.handed e path, e.create (s.handed e path)⟩

/-- The token file is open for one or the other. -/
def isOpen (s : TokenStore) (e : HostEnv) (path : Path) : Bool :=
  ((s.files path).isSome && e.opensRead) || e.opensWrite

/-- The files after an updated token has been written to one of them. -/
def written (e : HostEnv) (path : Path) (files : Path → Option (List Byte)) :
    Option Token → Path → Option (List Byte)
  | some token => Function.update files path (some (token.toList.take e.writeLimit))
  | none => files

/-- The files after a call. -/
def saved (s : TokenStore) (e : HostEnv) (path : Path) : Path → Option (List Byte) :=
  if s.isOpen e path && e.reopens then
    written e path (s.opened e path) (s.creation e path).updated
  else s.opened e path

/-- The state after a call. -/
def after (s : TokenStore) (e : HostEnv) (path : Path) : TokenStore where
  files := s.saved e path
  vm := s.vm.afterCreate ((s.creation e path).result.map Prod.fst)
  log := s.log ++ [s.creation e path]

end TokenStore

variable {e : HostEnv} {s s' : TokenStore}

theorem run_openToken (e : HostEnv) (path : Path) (s : TokenStore) :
    (openToken e path).run s = .ret
      (if (s.files path).isSome && e.opensRead then some .read
        else if e.opensWrite then some .write else none,
      { s with files := s.opened e path }) := by
  change (if ((s.files path).isSome && e.opensRead) = true then pure (some Mode.read)
    else if e.opensWrite = true then do
      set { s with files := Function.update s.files path (some []) }
      pure (some Mode.write)
    else pure none : Exec TokenStore (Option Mode)).run s = _
  unfold TokenStore.opened
  split_ifs <;> rfl

theorem run_readToken (e : HostEnv) (path : Path) (s : TokenStore) :
    (readToken e path (if (s.files path).isSome && e.opensRead then some .read
        else if e.opensWrite then some .write else none)).run
        { s with files := s.opened e path } =
      .ret (s.handed e path, { s with files := s.opened e path }) := by
  cases hfile : s.files path with
  | none =>
      by_cases hwrite : e.opensWrite = true <;>
        simp [readToken, TokenStore.handed, hfile, hwrite]
  | some content =>
      by_cases hread : e.opensRead = true
      · by_cases hwhole : 1024 ≤ content.length ∧ 1024 ≤ e.readLimit <;>
          simp [readToken, TokenStore.handed, TokenStore.opened, hfile, hread, hwhole]
      · by_cases hwrite : e.opensWrite = true <;>
          simp [readToken, TokenStore.handed, hfile, hread, hwrite]

theorem run_createEnclave (e : HostEnv) (token : Token) (s : TokenStore) :
    (createEnclave e token).run s = .ret (((e.create token).isSome, (e.create token).bind Prod.snd),
      { s with
        vm := s.vm.afterCreate ((e.create token).map Prod.fst)
        log := s.log ++ [⟨token, e.create token⟩] }) := by
  simp [createEnclave, onVm, run_sgxCreateEnclave]

/-- What a call does. -/
theorem run_createWithToken {home : Option Path} (h : e.passwd = some home) (s : TokenStore) :
    (createWithToken e).run s =
      .ret ((s.creation e (tokenPath home)).ret, s.after e (tokenPath home)) := by
  simp only [createWithToken, h, StateT.run_bind, run_openToken, Outcome.ret_bind, run_readToken,
    run_createEnclave, TokenStore.after, TokenStore.saved, TokenStore.creation,
    TokenStore.isOpen, Creation.updated, Creation.ret]
  generalize tokenPath home = path
  generalize e.create (s.handed e path) = result
  cases result with
  | none => simp [TokenStore.written]
  | some result =>
      obtain ⟨eid, updated⟩ := result
      cases updated with
      | none => simp [TokenStore.written]
      | some token =>
          simp only [Option.isSome_some, if_true, Option.bind_some, Option.map_some]
          by_cases hread : ((s.files path).isSome && e.opensRead) = true
          · by_cases hre : e.reopens = true <;>
              simp [hread, saveToken, hre, TokenStore.written]
          · by_cases hwrite : e.opensWrite = true
            · by_cases hre : e.reopens = true <;>
                simp [hread, hwrite, saveToken, hre, TokenStore.written]
            · simp [hread, hwrite]

/-- Without an entry in the password file a call crashes. -/
theorem run_createWithToken_of_none (h : e.passwd = none) (s : TokenStore) :
    (createWithToken e).run s = .crashed := by
  simp only [createWithToken, h]
  rfl

/-- A call that returns has found a password entry. -/
theorem after_of_run {ret : ℤ} (hrun : (createWithToken e).run s = .ret (ret, s')) :
    ∃ home, e.passwd = some home ∧ ret = (s.creation e (tokenPath home)).ret ∧
      s' = s.after e (tokenPath home) := by
  cases hpasswd : e.passwd with
  | none =>
      rw [run_createWithToken_of_none hpasswd] at hrun
      exact nomatch hrun
  | some home =>
      obtain ⟨hret, hs'⟩ := Outcome.pair_inj ((run_createWithToken hpasswd s).symm.trans hrun)
      exact ⟨home, rfl, hret.symm, hs'.symm⟩

/-! ## Where a token comes from -/

/-- A whole token: the empty one, one that a creation has left to be saved, or one that has
been in a file from the start. -/
def Whole (files : Path → Option (List Byte)) (log : List Creation) (token : Token) : Prop :=
  token = Vector.replicate 1024 0 ∨ (∃ c ∈ log, c.updated = some token) ∨
    ∃ path content, files path = some content ∧ 1024 ≤ content.length ∧
      token = (Layout.array 1024).get content

theorem Whole.append {files : Path → Option (List Byte)} {log : List Creation} {token : Token}
    (h : Whole files log token) (c : Creation) : Whole files (log ++ [c]) token :=
  h.imp_right fun h => h.imp_left fun ⟨c', hc', hupdated⟩ =>
    ⟨c', List.mem_append_left _ hc', hupdated⟩

/-- The invariant: what a file holds is a whole token, or too short to be taken for one; and
only whole tokens have been handed over. -/
structure Stored (initial : Path → Option (List Byte)) (s : TokenStore) : Prop where
  files : ∀ path content, s.files path = some content → 1024 ≤ content.length →
    Whole initial s.log ((Layout.array 1024).get content)
  handed : ∀ pre c post, s.log = pre ++ c :: post → Whole initial pre c.token

/-- Opening a file can empty it. -/
theorem opened_cases {path p : Path} {content : List Byte}
    (h : s.opened e path p = some content) : s.files p = some content ∨ content = [] := by
  unfold TokenStore.opened at h
  split_ifs at h with hread hwrite
  · exact .inl h
  · by_cases hp : p = path
    · rw [hp, Function.update_self] at h
      exact .inr (Option.some.inj h).symm
    · rw [Function.update_of_ne hp] at h
      exact .inl h
  · exact .inl h

/-- Saving a token can leave a part of it. -/
theorem saved_cases {path p : Path} {content : List Byte} (h : s.saved e path p = some content) :
    s.opened e path p = some content ∨ ∃ token, (s.creation e path).updated = some token ∧
      content = token.toList.take e.writeLimit := by
  unfold TokenStore.saved at h
  split_ifs at h
  · cases hupdated : (s.creation e path).updated with
    | none =>
        rw [hupdated] at h
        exact .inl h
    | some token =>
        rw [hupdated, TokenStore.written] at h
        by_cases hp : p = path
        · rw [hp, Function.update_self] at h
          exact .inr ⟨token, rfl, (Option.some.inj h).symm⟩
        · rw [Function.update_of_ne hp] at h
          exact .inl h
  · exact .inl h

/-- A part of a token is shorter than a token. -/
theorem get_take_toList {token : Token} {limit : ℕ}
    (h : 1024 ≤ (token.toList.take limit).length) :
    (Layout.array 1024).get (token.toList.take limit) = token := by
  have hlen : token.toList.length = 1024 := Vector.length_toList
  have hall : token.toList.take limit = token.toList := by
    apply List.take_of_length_le
    rw [List.length_take] at h
    omega
  rw [hall]
  exact (Layout.array 1024).get_put token

theorem Stored.after {initial : Path → Option (List Byte)} (hs : Stored initial s) (e : HostEnv)
    (path : Path) : Stored initial (s.after e path) where
  files := by
    intro p content hfile hlen
    rcases saved_cases hfile with hopened | ⟨token, hupdated, rfl⟩
    · rcases opened_cases hopened with hold | rfl
      · exact (hs.files p content hold hlen).append _
      · exact absurd hlen (by decide)
    · rw [get_take_toList hlen]
      exact .inr (.inl ⟨_, List.mem_append_right _ (List.mem_singleton_self _), hupdated⟩)
  handed := by
    refine forall_split_append_singleton hs.handed ?_
    change Whole initial s.log (s.handed e path)
    unfold TokenStore.handed
    cases hfile : s.files path with
    | none => exact .inl rfl
    | some content =>
        dsimp only
        split_ifs with hread
        · simp only [Bool.and_eq_true, decide_eq_true_eq] at hread
          exact hs.files path content hfile hread.1.2
        · exact .inl rfl

/-- The state of the enclaves and the results are those of the creations alone. -/
theorem run_initializeEnclave (c : Creation) (vm : Vm) :
    (initializeEnclave (c.result.map Prod.fst)).run vm =
      .ret (c.ret, vm.afterCreate (c.result.map Prod.fst)) := by
  obtain ⟨token, result⟩ := c
  cases result <;> rfl

theorem stored_of_run {initial : Path → Option (List Byte)} {es : List HostEnv}
    {rets : List ℤ} (hs : Stored initial s)
    (hrun : (runAll createWithToken es).run s = .ret (rets, s')) :
    Stored initial s' ∧ ∃ log, s'.log = s.log ++ log ∧
      (runAll initializeEnclave (log.map fun c => c.result.map Prod.fst)).run s.vm =
        .ret (rets, s'.vm) := by
  induction es generalizing s rets with
  | nil =>
      obtain ⟨rfl, rfl⟩ := Outcome.pair_inj hrun
      exact ⟨hs, [], (List.append_nil _).symm, rfl⟩
  | cons e es ih =>
      obtain ⟨ret, t, rets', he, hes, rfl⟩ := runAll_cons_eq_ret_iff.mp hrun
      obtain ⟨home, -, rfl, rfl⟩ := after_of_run he
      obtain ⟨hstored, log, hlog, hrest⟩ := ih (hs.after e (tokenPath home)) hes
      refine ⟨hstored, s.creation e (tokenPath home) :: log, ?_, ?_⟩
      · rw [hlog, TokenStore.after, List.append_assoc, List.singleton_append]
      · exact runAll_cons_eq_ret_iff.mpr ⟨_, _, _, run_initializeEnclave _ _, hrest, rfl⟩

/-- Whatever fails, and however often the function is called: each token that is handed to
`sgx_create_enclave` is a whole one, and results and enclaves are what the creations alone
would have made of them. -/
theorem whole_of_run {es : List HostEnv} {rets : List ℤ} (hlog : s.log = [])
    (hrun : (runAll createWithToken es).run s = .ret (rets, s')) :
    (∀ pre c post, s'.log = pre ++ c :: post → Whole s.files pre c.token) ∧
      (runAll initializeEnclave (s'.log.map fun c => c.result.map Prod.fst)).run s.vm =
        .ret (rets, s'.vm) := by
  have hs : Stored s.files s := by
    refine ⟨fun path content hfile hlen => .inr (.inr ⟨path, content, hfile, hlen, rfl⟩), ?_⟩
    intro pre c post h
    rw [hlog] at h
    simp at h
  obtain ⟨hstored, log, hlog', hvm⟩ := stored_of_run hs hrun
  rw [hlog, List.nil_append] at hlog'
  exact ⟨hstored.handed, hlog' ▸ hvm⟩

/-- The token of the samples. -/
def sampleToken : Token := Vector.replicate 1024 1

/-- Every creation updates the token, and all but so many bytes of a write are lost. -/
def sampleHost (eid limit : ℕ) : HostEnv where
  passwd := some (some (literal ['/']))
  opensRead := true
  opensWrite := true
  readLimit := 4096
  reopens := true
  writeLimit := limit
  create := fun _ => some (eid, some sampleToken)

theorem run_sampleHosts (eid eid' limit limit' : ℕ) : ∃ s' token,
    (runAll createWithToken [sampleHost eid limit, sampleHost eid' limit']).run .init =
      .ret ([0, 0], s') ∧
    s'.log = [⟨Vector.replicate 1024 0, some (eid, some sampleToken)⟩,
      ⟨token, some (eid', some sampleToken)⟩] := by
  have hfirst := run_createWithToken (e := sampleHost eid limit) rfl .init
  refine ⟨_, _, runAll_cons_eq_ret_iff.mpr ⟨_, _, _, hfirst, runAll_cons_eq_ret_iff.mpr
    ⟨_, _, _, run_createWithToken (e := sampleHost eid' limit') rfl _, rfl, rfl⟩, rfl⟩, rfl⟩

/-- After a write that has been cut off. -/
theorem whole_of_sampleHosts : ∃ s' token,
    (runAll createWithToken [sampleHost 1 10, sampleHost 2 1024]).run .init =
      .ret ([0, 0], s') ∧
    Whole (fun _ => none) [⟨Vector.replicate 1024 0, some (1, some sampleToken)⟩] token := by
  obtain ⟨s', token, hrun, hlog⟩ := run_sampleHosts 1 2 10 1024
  exact ⟨s', token, hrun, (whole_of_run rfl hrun).1 [_] ⟨token, _⟩ [] hlog⟩

/-! ## Without a failure -/

/-- No file operation of the call fails. -/
structure HostEnv.FaultFree (e : HostEnv) (home : Option Path) : Prop where
  passwd : e.passwd = some home
  opensRead : e.opensRead = true
  opensWrite : e.opensWrite = true
  reads : 1024 ≤ e.readLimit
  reopens : e.reopens = true
  writes : 1024 ≤ e.writeLimit

/-- The token in a file, and the empty one if there is none. -/
def TokenStore.stored (s : TokenStore) (path : Path) : Token :=
  match s.files path with
  | some content =>
      if 1024 ≤ content.length then (Layout.array 1024).get content
      else Vector.replicate 1024 0
  | none => Vector.replicate 1024 0

/-- The last token that has been updated. -/
def latest (initial : Token) (log : List Creation) : Token :=
  (log.filterMap Creation.updated).getLast?.getD initial

theorem latest_append_singleton (initial : Token) (log : List Creation) (c : Creation) :
    latest initial (log ++ [c]) = c.updated.getD (latest initial log) := by
  cases hupdated : c.updated <;> simp [latest, hupdated]

/-- The token in the file is the one that is handed over. -/
theorem HostEnv.FaultFree.handed_eq {home : Option Path} (he : e.FaultFree home)
    (s : TokenStore) (path : Path) : s.handed e path = s.stored path := by
  unfold TokenStore.handed TokenStore.stored
  cases s.files path with
  | none => rfl
  | some content => simp [he.opensRead, he.reads]

/-- Opening the file does not change what is stored. -/
theorem HostEnv.FaultFree.stored_opened {home : Option Path} (he : e.FaultFree home)
    (s : TokenStore) (path : Path) :
    TokenStore.stored { s with files := s.opened e path } path = s.stored path := by
  cases hfile : s.files path <;>
    simp [TokenStore.stored, TokenStore.opened, he.opensRead, he.opensWrite, hfile]

/-- The token in the file is the one of the creation, if that has updated it. -/
theorem HostEnv.FaultFree.stored_after {home : Option Path} (he : e.FaultFree home)
    (s : TokenStore) (path : Path) :
    (s.after e path).stored path = (s.creation e path).updated.getD (s.stored path) := by
  have hopen : s.isOpen e path = true := by simp [TokenStore.isOpen, he.opensWrite]
  rw [← he.stored_opened s path]
  cases hupdated : (s.creation e path).updated with
  | none =>
      simp [TokenStore.stored, TokenStore.after, TokenStore.saved, TokenStore.written, hupdated]
  | some token =>
      have hlen : token.toList.length = 1024 := Vector.length_toList
      have hall : 1024 ≤ (token.toList.take e.writeLimit).length := by
        rw [List.length_take, hlen]
        exact le_min he.writes le_rfl
      have hfile : (s.after e path).files path = some (token.toList.take e.writeLimit) := by
        simp [TokenStore.after, TokenStore.saved, TokenStore.written, hopen, he.reopens, hupdated]
      simp only [TokenStore.stored, hfile, if_pos hall, get_take_toList hall, Option.getD_some]

/-- The invariant without a failure: the file holds the latest token, and the latest one has
always been handed over. -/
structure UpToDate (initial : Token) (path : Path) (s : TokenStore) : Prop where
  stored : s.stored path = latest initial s.log
  handed : ∀ pre c post, s.log = pre ++ c :: post → c.token = latest initial pre

theorem UpToDate.after {initial : Token} {home : Option Path} {path : Path}
    (hs : UpToDate initial path s) (he : e.FaultFree home) :
    UpToDate initial path (s.after e path) where
  stored := by
    rw [he.stored_after, hs.stored, TokenStore.after, latest_append_singleton]
  handed := by
    refine forall_split_append_singleton hs.handed ?_
    exact (he.handed_eq s path).trans hs.stored

/-- Without a failure each creation gets the token of the latest one that has updated it, and
before the first update the one that is in the file from the start. -/
theorem latest_of_run {home : Option Path} {es : List HostEnv} {rets : List ℤ}
    (hlog : s.log = []) (hes : ∀ e ∈ es, e.FaultFree home)
    (hrun : (runAll createWithToken es).run s = .ret (rets, s')) :
    ∀ pre c post, s'.log = pre ++ c :: post →
      c.token = latest (s.stored (tokenPath home)) pre := by
  have hs : UpToDate (s.stored (tokenPath home)) (tokenPath home) s :=
    ⟨by rw [hlog]; rfl, by simp [hlog]⟩
  generalize s.stored (tokenPath home) = initial at hs ⊢
  clear hlog
  induction es generalizing s rets with
  | nil =>
      obtain ⟨rfl, rfl⟩ := Outcome.pair_inj hrun
      exact hs.handed
  | cons e es ih =>
      obtain ⟨ret, t, rets', he, hrest, rfl⟩ := runAll_cons_eq_ret_iff.mp hrun
      obtain ⟨home', hpasswd, -, rfl⟩ := after_of_run he
      have hfree : e.FaultFree home := hes e (List.mem_cons_self ..)
      obtain rfl : home = home' := Option.some.inj (hfree.passwd.symm.trans hpasswd)
      exact ih (fun e' he' => hes e' (List.mem_cons_of_mem _ he')) hrest (hs.after hfree)

theorem latest_of_sampleHosts : ∃ s',
    (runAll createWithToken [sampleHost 1 1024, sampleHost 2 1024]).run .init =
      .ret ([0, 0], s') ∧
    s'.log = [⟨Vector.replicate 1024 0, some (1, some sampleToken)⟩,
      ⟨sampleToken, some (2, some sampleToken)⟩] := by
  obtain ⟨s', token, hrun, hlog⟩ := run_sampleHosts 1 2 1024 1024
  have hfree : ∀ e ∈ [sampleHost 1 1024, sampleHost 2 1024],
      e.FaultFree (some (literal ['/'])) := by
    intro e he
    simp only [List.mem_cons, List.not_mem_nil, or_false] at he
    rcases he with rfl | rfl <;>
      exact ⟨rfl, rfl, rfl, by simp [sampleHost], rfl, by simp [sampleHost]⟩
  have htoken : token = sampleToken := latest_of_run rfl hfree hrun [_] ⟨token, _⟩ [] hlog
  exact ⟨s', hrun, htoken ▸ hlog⟩

end SgxErlang.Rsa
