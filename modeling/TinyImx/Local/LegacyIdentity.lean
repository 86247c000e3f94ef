import Mathlib.Data.List.DropRight
import TinyImx.Lib.Json
import TinyImx.Lib.Run
import TinyImx.Local.EventIds

/-!
# The identity of client message ids

`MySqlLegacyIdentity` asks SQL for the weight string of a client message id under the collation of the
message table, and whether its users exist.  A cache of the weights of some characters and of users that
were seen answers for SQL where it knows both.
-/

namespace TinyImx.Local.LegacyIdentity

/-! ## The program -/

def capacity : ℕ := 100000

def alphabet : Bytes := ascii "0123456789ABCDEFGHIJKLMNOPQRSTUVWXYZabcdefghijklmnopqrstuvwxyz_-:"

def spaceWeight : Bytes := ascii "0209"

def isDigit (c : UInt8) : Bool := 48 ≤ c ∧ c ≤ 57

def isHexDigit (c : UInt8) : Bool := (48 ≤ c ∧ c ≤ 57) ∨ (65 ≤ c ∧ c ≤ 70)

structure ImmutableCache where
  weights : List Bytes := List.replicate 128 []
  positiveUsers : List UInt64 := []
  hits : ℕ := 0
  sqlChecks : ℕ := 0

namespace ImmutableCache

def known (cache : ImmutableCache) (fromId toId : UInt64) : Bool :=
  toId = 0 ∨ (fromId ∈ cache.positiveUsers ∧ toId ∈ cache.positiveUsers)

def rememberOne (users : List UInt64) (id : UInt64) : List UInt64 :=
  if users.length < capacity then users.insert id else users

def remember (cache : ImmutableCache) (fromId toId : UInt64) : ImmutableCache :=
  { cache with positiveUsers := rememberOne (rememberOne cache.positiveUsers fromId) toId }

def weight (cache : ImmutableCache) (c : UInt8) : Bytes := cache.weights.getD c.toNat []

def canonical (cache : ImmutableCache) (cid : Bytes) : Option Bytes :=
  if cid.any fun c => cache.weight c = [] then none else some (cid.flatMap cache.weight)

end ImmutableCache

def number (text : Bytes) : ℕ := text.foldl (fun n c => n * 10 + (c.toNat - 48)) 0

def addWeight (weights : List Bytes) : List Bytes → Option (List Bytes)
  | [code, weight] =>
    if code = [] ∨ code.all isDigit = false then none
    else
      let code := number code
      if 128 ≤ code ∨ UInt8.ofNat code ∉ alphabet ∨ weights.getD code [] ≠ [] ∨ weight.length ≠ 4 ∨
          weight = spaceWeight ∨ weight.all isHexDigit = false then none
      else some (weights.set code weight)
  | _ => none

/-- The cache that the constructor makes of the answer for the weights of the alphabet. -/
def makeCache (rows : List (List Bytes)) : Option ImmutableCache :=
  if rows.length ≠ alphabet.length then none
  else (rows.foldlM addWeight (List.replicate 128 [])).map fun weights => { weights }

structure Sql where
  acquired : Bool := true
  rows : Option (List (List Bytes)) := none

def stripSpaces : ℕ → Bytes → Bytes
  | 0, key => key
  | rounds + 1, key =>
    if spaceWeight.isSuffixOf key then stripSpaces rounds (key.take (key.length - 4)) else key

/-- What `Resolve` makes of the row that SQL gives, and whether the users are remembered. -/
def readRow (toId : UInt64) (row : List Bytes) : IdentityResult × Bool :=
  let key := row.getD 0 []
  if 1024 < key.length ∨ key.length % 4 ≠ 0 ∨ key.all isHexDigit = false then
    ({ status := .invalidRecord, message := "legacy identity authority returned invalid weights" },
      false)
  else if toId ≠ 0 ∧ (row.getD 1 [] ≠ ascii "1" ∨ row.getD 2 [] ≠ ascii "1") then
    ({ message := "legacy logical user identity missing" }, false)
  else ({ status := .succeeded, canonicalCid := stripSpaces key.length key }, toId ≠ 0)

def resolveSql (sql : Sql) (toId : UInt64) : IdentityResult × Bool :=
  if sql.acquired = false then
    ({ message := "legacy identity SQL authority unavailable" }, false)
  else match sql.rows with
    | some [row] =>
      if row.length ≠ (if toId = 0 then 1 else 3) then
        ({ message := "legacy identity SQL query failed" }, false)
      else readRow toId row
    | _ => ({ message := "legacy identity SQL query failed" }, false)

def resolve (lib : Json.Library) (sql : Sql) (cache : Option ImmutableCache) (fromId toId : UInt64)
    (cid : Bytes) : IdentityResult × Option ImmutableCache :=
  if fromId = 0 ∨ cid = [] ∨ 64 < cid.length ∨ (toId ≠ 0 ∧ fromId = toId) then
    ({ status := .invalidArgument, message := "invalid legacy identity request" }, cache)
  else match lib.dump (.string cid) with
    | .error _ => ({ message := "invalid legacy utf8mb4 CID bytes" }, cache)
    | .ok _ =>
      match cache with
      | none => ((resolveSql sql toId).1, none)
      | some cache =>
        match (if cache.known fromId toId then cache.canonical cid else none) with
        | some canonicalCid =>
          ({ status := .succeeded, canonicalCid }, some { cache with hits := cache.hits + 1 })
        | none =>
          let cache := { cache with sqlChecks := cache.sqlChecks + 1 }
          let (result, seen) := resolveSql sql toId
          (result, some (if seen then cache.remember fromId toId else cache))

/-! ## The authority -/

variable {weightString : Bytes → Bytes} {users : List UInt64} {fromId toId : UInt64} {cid : Bytes}
variable {lib : Json.Library} {weights : List Bytes}

/-- The weight string of an id over the alphabet is that of its characters, one after the other. -/
def Additive (weightString : Bytes → Bytes) : Prop :=
  ∀ cid : Bytes, (∀ c ∈ cid, c ∈ alphabet) → weightString cid = cid.flatMap fun c => weightString [c]

def Weighs (weightString : Bytes → Bytes) (rows : List (List Bytes)) : Prop :=
  ∀ row ∈ rows, ∃ c ∈ alphabet, row = [decimal c.toNat, weightString [c]]

def flag (value : Bool) : Bytes := if value then ascii "1" else ascii "0"

def answerRow (weightString : Bytes → Bytes) (users : List UInt64) (fromId toId : UInt64)
    (cid : Bytes) : List Bytes :=
  weightString cid :: if toId = 0 then [] else [flag (fromId ∈ users), flag (toId ∈ users)]

def Sql.Answers (sql : Sql) : Prop := sql.acquired = true ∧ sql.rows ≠ none

def Sql.Honest (sql : Sql) (weightString : Bytes → Bytes) (users : List UInt64) (fromId toId : UInt64)
    (cid : Bytes) : Prop :=
  sql.rows = none ∨ sql.rows = some [answerRow weightString users fromId toId cid]

def answering (weightString : Bytes → Bytes) (users : List UInt64) (fromId toId : UInt64)
    (cid : Bytes) : Sql :=
  { rows := some [answerRow weightString users fromId toId cid] }

/-! ## The weights of the cache -/

structure IsWeight (weightString : Bytes → Bytes) (c : UInt8) (weight : Bytes) : Prop where
  eq : weight = weightString [c]
  mem : c ∈ alphabet
  length : weight.length = 4
  ne_space : weight ≠ spaceWeight
  hex : weight.all isHexDigit = true

def Covers (weightString : Bytes → Bytes) (weights : List Bytes) : Prop :=
  ∀ c : UInt8, weights.getD c.toNat [] ≠ [] →
    IsWeight weightString c (weights.getD c.toNat [])

theorem ascii_ofList (chars : List Char) :
    ascii (String.ofList chars) = chars.map fun c => UInt8.ofNat c.toNat := by
  rw [ascii, String.toList_ofList]

theorem toNat_digit {n : ℕ} {c : Char} (hc : c ∈ Nat.toDigits 10 n) :
    (UInt8.ofNat c.toNat).toNat = c.toNat ∧ 48 ≤ c.toNat ∧ c.toNat ≤ 57 := by
  have hrange := digit_range (Nat.isDigit_of_mem_toDigits (by decide) (by decide) hc)
  exact ⟨UInt8.toNat_ofNat_of_lt' (hrange.2.trans_lt (by decide)), hrange⟩

theorem number_decimal (n : ℕ) : number (decimal n) = n := by
  have hdigits : number (decimal n) = Nat.ofDigitChars 10 (Nat.toDigits 10 n) 0 := by
    rw [number, decimal_eq, List.foldl_map, Nat.ofDigitChars_eq_foldl]
    refine List.foldl_ext _ _ _ fun m c hc => ?_
    rw [(toNat_digit hc).1, Nat.mul_comm]
    rfl
  rw [hdigits, Nat.ofDigitChars_ten_toDigits]

theorem isDigit_decimal (n : ℕ) : (decimal n).all isDigit = true := by
  rw [decimal_eq, List.all_map, List.all_eq_true]
  intro c hc
  obtain ⟨hbyte, hlow, hhigh⟩ := toNat_digit hc
  simp only [Function.comp_apply, isDigit, decide_eq_true_eq, UInt8.le_iff_toNat_le, hbyte]
  exact ⟨hlow, hhigh⟩

theorem covers_replicate : Covers weightString (List.replicate 128 []) := by
  intro c hc
  refine absurd ?_ hc
  rw [List.getD_eq_getElem?_getD, List.getElem?_replicate]
  split <;> rfl

theorem Covers.addWeight {weights' : List Bytes} (h : Covers weightString weights) {c : UInt8}
    (hc : c ∈ alphabet)
    (hadd : addWeight weights [decimal c.toNat, weightString [c]] = some weights') :
    Covers weightString weights' := by
  rw [LegacyIdentity.addWeight] at hadd
  by_cases hcode : decimal c.toNat = [] ∨ (decimal c.toNat).all isDigit = false
  · grind
  rw [if_neg hcode, number_decimal] at hadd
  dsimp only at hadd
  split at hadd
  · cases hadd
  next hgood =>
  obtain rfl := Option.some.inj hadd
  simp only [not_or, not_le, not_not, Bool.not_eq_false] at hgood
  intro d hd
  by_cases hsame : d = c
  · subst hsame
    by_cases hlen : d.toNat < weights.length
    · have hget : (weights.set d.toNat (weightString [d])).getD d.toNat [] = weightString [d] := by
        rw [List.getD_eq_getElem?_getD, List.getElem?_set_self hlen]
        rfl
      rw [hget]
      exact ⟨rfl, hc, hgood.2.2.2.1, hgood.2.2.2.2.1, hgood.2.2.2.2.2⟩
    · simp_all
  · have hget : (weights.set c.toNat (weightString [c])).getD d.toNat [] =
        weights.getD d.toNat [] := by
      rw [List.getD_eq_getElem?_getD, List.getElem?_set_ne fun heq =>
        hsame (UInt8.toNat_inj.1 heq.symm), ← List.getD_eq_getElem?_getD]
    rw [hget] at hd ⊢
    exact h d hd

variable {cache : ImmutableCache}

theorem makeCache_covers {rows : List (List Bytes)}
    (hrows : Weighs weightString rows) (h : makeCache rows = some cache) :
    Covers weightString cache.weights := by
  have hfold : ∀ (rows : List (List Bytes)) (weights weights' : List Bytes),
      Weighs weightString rows → Covers weightString weights →
      rows.foldlM addWeight weights = some weights' → Covers weightString weights' := by
    intro rows
    induction rows with
    | nil =>
      simp_all
    | cons row rows ih =>
      intro weights weights' hrows h heq
      obtain ⟨⟨c, hc, rfl⟩, hothers⟩ := List.forall_mem_cons.1 hrows
      rw [List.foldlM_cons] at heq
      obtain ⟨next, hadd, hrest⟩ := Option.bind_eq_some_iff.1 heq
      exact ih next weights' hothers (h.addWeight hc hadd) hrest
  unfold makeCache at h
  split at h
  · cases h
  obtain ⟨weights, hweights, rfl⟩ := Option.map_eq_some_iff.1 h
  exact hfold rows _ weights hrows covers_replicate hweights

theorem not_isSuffixOf {text weight : Bytes} (hlength : weight.length = 4)
    (hne : weight ≠ spaceWeight) : spaceWeight.isSuffixOf (text ++ weight) = false := by
  rw [← Bool.not_eq_true, List.isSuffixOf_iff_suffix]
  intro hsuffix
  have hle := List.suffix_of_suffix_length_le hsuffix (List.suffix_append text weight) (by
    rw [hlength]
    rfl)
  exact hne (hle.eq_of_length (by rw [hlength]; rfl)).symm

theorem canonical_spec (hadditive : Additive weightString)
    (h : Covers weightString cache.weights) {key : Bytes} (hkey : cache.canonical cid = some key) :
    key = weightString cid ∧ key.length = 4 * cid.length ∧ key.all isHexDigit = true ∧
      (cid ≠ [] → spaceWeight.isSuffixOf key = false) := by
  unfold ImmutableCache.canonical at hkey
  split at hkey
  · cases hkey
  next hall =>
  obtain rfl := Option.some.inj hkey
  rw [Bool.not_eq_true, List.any_eq_false] at hall
  have hweight : ∀ c ∈ cid, IsWeight weightString c (cache.weight c) :=
    fun c hc => h c (show cache.weight c ≠ [] by simpa using hall c hc)
  refine ⟨?_, ?_, ?_, fun hne => ?_⟩
  · rw [hadditive cid fun c hc => (hweight c hc).mem, List.flatMap_def, List.flatMap_def]
    exact congrArg List.flatten (List.map_congr_left fun c hc => (hweight c hc).eq)
  · clear hall hkey
    induction cid with
    | nil => rfl
    | cons c cid ih =>
      rw [List.forall_mem_cons] at hweight
      rw [List.flatMap_cons, List.length_append, ih hweight.2, hweight.1.length, List.length_cons]
      omega
  · rw [List.all_flatMap, List.all_eq_true]
    exact fun c hc => (hweight c hc).hex
  · obtain ⟨init, c, rfl⟩ := (List.eq_nil_or_concat cid).resolve_left hne
    have hlast := hweight c (by simp)
    rw [List.concat_eq_append, List.flatMap_append, List.flatMap_singleton]
    exact not_isSuffixOf hlast.length hlast.ne_space

/-! ## The cache agrees with the authority -/

theorem resolveSql_of_answers {sql : Sql} (hanswers : sql.Answers)
    (hhonest : sql.Honest weightString users fromId toId cid) :
    resolveSql sql toId = readRow toId (answerRow weightString users fromId toId cid) := by
  unfold resolveSql
  rw [if_neg (by rw [hanswers.1]; exact Bool.noConfusion), hhonest.resolve_left hanswers.2]
  refine if_neg ?_
  unfold answerRow
  split <;> simp

theorem readRow_of_canonical (hadditive : Additive weightString)
    (hcovers : Covers weightString cache.weights) (husers : ∀ id ∈ cache.positiveUsers, id ∈ users)
    (hknown : cache.known fromId toId = true) (hne : cid ≠ []) (hlength : cid.length ≤ 64)
    {key : Bytes} (hkey : cache.canonical cid = some key) :
    (readRow toId (answerRow weightString users fromId toId cid)).1 =
      { status := .succeeded, canonicalCid := key } := by
  obtain ⟨rfl, hkeyLength, hhex, hsuffix⟩ := canonical_spec hadditive hcovers hkey
  have hrow : (answerRow weightString users fromId toId cid).getD 0 [] = weightString cid := rfl
  simp only [readRow]
  rw [hrow, if_neg (by rw [hkeyLength, hhex]; simp; omega), if_neg]
  · obtain ⟨n, hn⟩ : ∃ n, (weightString cid).length = n := ⟨_, rfl⟩
    rw [hn]
    cases n with
    | zero => rfl
    | succ n => rw [stripSpaces, hsuffix hne]; rfl
  · rintro ⟨hto, hflag⟩
    unfold ImmutableCache.known at hknown
    rw [decide_eq_true_eq] at hknown
    obtain ⟨hfrom, hto'⟩ := hknown.resolve_left hto
    unfold answerRow at hflag
    rw [if_neg hto] at hflag
    simp [flag, husers _ hfrom, husers _ hto'] at hflag

theorem resolve_none (lib : Json.Library) (sql : Sql) (fromId toId : UInt64) (cid : Bytes) :
    (resolve lib sql none fromId toId cid).1 =
      if fromId = 0 ∨ cid = [] ∨ 64 < cid.length ∨ (toId ≠ 0 ∧ fromId = toId) then
        { status := .invalidArgument, message := "invalid legacy identity request" }
      else match lib.dump (.string cid) with
        | .error _ => { message := "invalid legacy utf8mb4 CID bytes" }
        | .ok _ => (resolveSql sql toId).1 := by
  unfold resolve
  split
  · rfl
  · cases lib.dump (.string cid) <;> rfl

theorem resolve_cached (sql : Sql) {key text : Bytes}
    (hvalid : ¬ (fromId = 0 ∨ cid = [] ∨ 64 < cid.length ∨ (toId ≠ 0 ∧ fromId = toId)))
    (hdump : lib.dump (.string cid) = .ok text) (hknown : cache.known fromId toId = true)
    (hkey : cache.canonical cid = some key) :
    (resolve lib sql (some cache) fromId toId cid).1 =
      { status := .succeeded, canonicalCid := key } := by
  unfold resolve
  rw [if_neg hvalid, hdump]
  simp_all

theorem resolve_none_of_answers {sql : Sql} (hanswers : sql.Answers)
    (hhonest : sql.Honest weightString users fromId toId cid) :
    (resolve lib sql none fromId toId cid).1 =
      (resolve lib (answering weightString users fromId toId cid) none fromId toId cid).1 := by
  rw [resolve_none, resolve_none, resolveSql_of_answers hanswers hhonest,
    @resolveSql_of_answers weightString users fromId toId cid
      (answering weightString users fromId toId cid) ⟨rfl, Option.some_ne_none _⟩ (.inr rfl)]

structure Sound (weightString : Bytes → Bytes) (users : List UInt64) (cache : ImmutableCache) :
    Prop where
  covers : Covers weightString cache.weights
  users : ∀ id ∈ cache.positiveUsers, id ∈ users

theorem resolve_some (hadditive : Additive weightString) (sql : Sql)
    (hsound : Sound weightString users cache) :
    (resolve lib sql (some cache) fromId toId cid).1 = (resolve lib sql none fromId toId cid).1 ∨
      (resolve lib sql (some cache) fromId toId cid).1 =
        (resolve lib (answering weightString users fromId toId cid) none fromId toId cid).1 := by
  rw [resolve_none, resolve_none]
  unfold resolve
  split
  · exact .inl rfl
  next hvalid =>
  cases hdump : lib.dump (.string cid) with
  | error what => exact .inl rfl
  | ok text =>
  dsimp only
  by_cases hknown : cache.known fromId toId = true
  · rw [if_pos hknown]
    cases hkey : cache.canonical cid with
    | none => exact .inl rfl
    | some key =>
      simp only [not_or, not_lt] at hvalid
      refine .inr ?_
      rw [@resolveSql_of_answers weightString users fromId toId cid
        (answering weightString users fromId toId cid) ⟨rfl, Option.some_ne_none _⟩ (.inr rfl)]
      exact (readRow_of_canonical hadditive hsound.covers hsound.users hknown hvalid.2.1
        hvalid.2.2.1 hkey).symm
  · rw [if_neg hknown]
    exact .inl rfl

/-! ## Weights -/

def weightsOf : Bytes → List Bytes
  | a :: b :: c :: d :: rest => [a, b, c, d] :: weightsOf rest
  | _ => []

def trimmed (text : Bytes) : List Bytes := (weightsOf text).rdropWhile (· = spaceWeight)

theorem weightsOf_append {weight : Bytes} (h : weight.length = 4) (text : Bytes) :
    weightsOf (weight ++ text) = weight :: weightsOf text := by
  match weight, h with
  | [_, _, _, _], _ => rfl

theorem weightsOf_flatten {groups : List Bytes} (h : ∀ weight ∈ groups, weight.length = 4) :
    weightsOf groups.flatten = groups := by
  induction groups with
  | nil => rfl
  | cons weight groups ih =>
    rw [List.forall_mem_cons] at h
    rw [List.flatten_cons, weightsOf_append h.1, ih h.2]

theorem exists_weights : ∀ {text : Bytes}, text.length % 4 = 0 →
    ∃ groups : List Bytes, text = groups.flatten ∧ ∀ weight ∈ groups, weight.length = 4
  | [], _ => ⟨[], rfl, fun _ h => absurd h List.not_mem_nil⟩
  | [_], h => absurd h (by simp)
  | [_, _], h => absurd h (by simp)
  | [_, _, _], h => absurd h (by simp)
  | a :: b :: c :: d :: rest, h => by
    obtain ⟨groups, hrest, hgroups⟩ := @exists_weights rest (by
      grind)
    exact ⟨[a, b, c, d] :: groups, by rw [List.flatten_cons, ← hrest]; rfl,
      List.forall_mem_cons.2 ⟨rfl, hgroups⟩⟩

theorem stripSpaces_flatten {groups : List Bytes} (h : ∀ weight ∈ groups, weight.length = 4)
    {rounds : ℕ} (hrounds : groups.length ≤ rounds) :
    stripSpaces rounds groups.flatten = (groups.rdropWhile (· = spaceWeight)).flatten := by
  induction groups using List.reverseRecOn generalizing rounds with
  | nil =>
    cases rounds with
    | zero => rfl
    | succ rounds => rfl
  | append_singleton groups weight ih =>
    rw [List.forall_mem_append, List.forall_mem_singleton] at h
    rw [List.length_append, List.length_singleton] at hrounds
    obtain ⟨rounds, rfl⟩ : ∃ n, rounds = n + 1 := ⟨rounds - 1, by omega⟩
    rw [stripSpaces, List.flatten_append, List.flatten_singleton]
    by_cases hspace : weight = spaceWeight
    · have hsuffix : spaceWeight.isSuffixOf (groups.flatten ++ weight) = true :=
        List.isSuffixOf_iff_suffix.2 (hspace ▸ List.suffix_append _ _)
      rw [if_pos hsuffix, List.rdropWhile_concat_pos _ _ _ (by simpa using hspace),
        List.length_append, h.2, Nat.add_sub_cancel, List.take_left' rfl]
      exact ih h.1 (by omega)
    · rw [not_isSuffixOf h.2 hspace, List.rdropWhile_concat_neg _ _ _ (by simpa using hspace),
        List.flatten_append, List.flatten_singleton]
      rfl

theorem stripSpaces_eq {text : Bytes} (h : text.length % 4 = 0) :
    stripSpaces text.length text = (trimmed text).flatten := by
  obtain ⟨groups, rfl, hgroups⟩ := exists_weights h
  have hlength : groups.length ≤ groups.flatten.length := by
    rw [List.length_flatten]
    refine le_trans ?_ (List.length_le_sum_of_one_le _ ?_)
    · rw [List.length_map]
    · intro n hn
      obtain ⟨weight, hmem, rfl⟩ := List.mem_map.1 hn
      rw [hgroups weight hmem]
      decide
  rw [trimmed, weightsOf_flatten hgroups, stripSpaces_flatten hgroups hlength]

theorem length_of_mem_trimmed {text weight : Bytes} (h : text.length % 4 = 0)
    (hmem : weight ∈ trimmed text) : weight.length = 4 := by
  obtain ⟨groups, rfl, hgroups⟩ := exists_weights h
  rw [trimmed, weightsOf_flatten hgroups] at hmem
  exact hgroups weight ((List.rdropWhile_prefix _ _).subset hmem)

/-! ## Runs -/

structure World where
  users : List UInt64 := []
  cache : Option ImmutableCache := none

/-- A user is added, or `Resolve` is called. -/
inductive Label where
  | register (id : UInt64)
  | resolve (sql : Sql) (fromId toId : UInt64) (cid : Bytes)

/-- Users are added and never deleted; SQL answers as the collation and the users have it. -/
inductive Step (lib : Json.Library) (weightString : Bytes → Bytes) : World → Label → World → Prop where
  | register (world : World) (id : UInt64) :
      Step lib weightString world (.register id) { world with users := id :: world.users }
  | resolve (world : World) (sql : Sql) (fromId toId : UInt64) (cid : Bytes) :
      sql.Honest weightString world.users fromId toId cid →
      Step lib weightString world (.resolve sql fromId toId cid)
        { world with cache := (resolve lib sql world.cache fromId toId cid).2 }

def World.Sound (weightString : Bytes → Bytes) (world : World) : Prop :=
  ∀ cache, world.cache = some cache → LegacyIdentity.Sound weightString world.users cache

theorem mem_remember {id : UInt64} (h : id ∈ (cache.remember fromId toId).positiveUsers) :
    id ∈ cache.positiveUsers ∨ id = fromId ∨ id = toId := by
  have hone : ∀ {known : List UInt64} {other : UInt64},
      id ∈ ImmutableCache.rememberOne known other → id ∈ known ∨ id = other := by
    intro known other hmem
    unfold ImmutableCache.rememberOne at hmem
    grind
  rcases hone h with h | h
  · exact (hone h).imp_right .inl
  · exact .inr (.inr h)

theorem resolveSql_seen {sql : Sql} (hhonest : sql.Honest weightString users fromId toId cid)
    (h : (resolveSql sql toId).2 = true) : fromId ∈ users ∧ toId ∈ users := by
  by_cases hanswers : sql.Answers
  · rw [resolveSql_of_answers hanswers hhonest] at h
    simp only [readRow] at h
    split at h
    · cases h
    split at h
    · cases h
    next hflags =>
    have hto : toId ≠ 0 := by simpa using h
    unfold answerRow at hflags
    rw [if_neg hto] at hflags
    by_contra hmissing
    refine hflags ⟨hto, ?_⟩
    rcases not_and_or.1 hmissing with hmissing | hmissing
    · exact .inl (by simp [flag, hmissing]; decide)
    · exact .inr (by simp [flag, hmissing]; decide)
  · unfold resolveSql at h
    split at h
    · cases h
    next hacquired =>
    have hrows : sql.rows = none := by
      by_contra hrows
      exact hanswers ⟨by simpa using hacquired, hrows⟩
    rw [hrows] at h
    cases h

theorem Sound.register (h : Sound weightString users cache) (id : UInt64) :
    Sound weightString (id :: users) cache :=
  ⟨h.covers, fun other hother => List.mem_cons_of_mem _ (h.users other hother)⟩

theorem Sound.resolve {cache cache' : ImmutableCache} (h : Sound weightString users cache) {sql : Sql}
    (hhonest : sql.Honest weightString users fromId toId cid)
    (heq : (resolve lib sql (some cache) fromId toId cid).2 = some cache') :
    Sound weightString users cache' := by
  unfold LegacyIdentity.resolve at heq
  split at heq
  · simp_all
  cases hdump : lib.dump (.string cid) with
  | error what =>
    simp_all
  | ok text =>
    rw [hdump] at heq
    dsimp only at heq
    split at heq
    · obtain rfl := Option.some.inj heq
      exact ⟨h.covers, h.users⟩
    · obtain rfl := Option.some.inj heq
      by_cases hseen : (resolveSql sql toId).2 = true
      · rw [if_pos hseen]
        obtain ⟨hfrom, hto⟩ := resolveSql_seen hhonest hseen
        refine ⟨h.covers, fun id hid => ?_⟩
        rcases mem_remember hid with hid | rfl | rfl
        · exact h.users id hid
        · exact hfrom
        · exact hto
      · rw [if_neg hseen]
        exact ⟨h.covers, h.users⟩

theorem Step.sound {world world' : World} {label : Label} (h : world.Sound weightString)
    (hstep : Step lib weightString world label world') : world'.Sound weightString := by
  cases hstep with
  | register id => exact fun cache heq => (h cache heq).register id
  | resolve sql fromId toId cid hhonest =>
    intro cache' heq
    cases hcache : world.cache with
    | none =>
      rw [hcache] at heq
      unfold LegacyIdentity.resolve at heq
      split at heq
      · cases heq
      · cases hdump : lib.dump (.string cid) with
        | error what =>
          rw [hdump] at heq
          cases heq
        | ok text =>
          rw [hdump] at heq
          cases heq
    | some cache =>
      rw [hcache] at heq
      exact (h cache hcache).resolve hhonest heq

/-! ## Main theorem -/

/-- A start without a cache, or with one that the constructor made and that remembers any users. -/
def Starts (weightString : Bytes → Bytes) (world : World) : Prop :=
  ∀ cache, world.cache = some cache →
    (∃ rows made, Weighs weightString rows ∧ makeCache rows = some made ∧
      cache.weights = made.weights) ∧ ∀ id ∈ cache.positiveUsers, id ∈ world.users

theorem Starts.sound {world : World} (h : Starts weightString world) : world.Sound weightString := by
  intro cache hcache
  obtain ⟨⟨rows, made, hrows, hmade, hweights⟩, husers⟩ := h cache hcache
  exact ⟨hweights ▸ makeCache_covers hrows hmade, husers⟩

def Made (lib : Json.Library) (weightString : Bytes → Bytes) (start : World) (cid : Bytes)
    (result : IdentityResult) : Prop :=
  ∃ labels world sql fromId toId, Run (Step lib weightString) start labels world ∧
    sql.Honest weightString world.users fromId toId cid ∧
    result = (resolve lib sql world.cache fromId toId cid).1

theorem canonical_of_succeeded (hsucceeded : (readRow toId (answerRow weightString users fromId toId
      cid)).1.status = .succeeded) :
    (weightString cid).length % 4 = 0 ∧
      (readRow toId (answerRow weightString users fromId toId cid)).1.canonicalCid =
        (trimmed (weightString cid)).flatten := by
  have hrow : (answerRow weightString users fromId toId cid).getD 0 [] = weightString cid := rfl
  simp only [readRow] at hsucceeded ⊢
  rw [hrow] at hsucceeded ⊢
  split at hsucceeded
  · cases hsucceeded
  next hvalid =>
  split at hsucceeded
  · cases hsucceeded
  next hflags =>
  simp only [not_or, not_not] at hvalid
  rw [if_neg (by simpa using hvalid), if_neg hflags]
  exact ⟨hvalid.2.1, stripSpaces_eq hvalid.2.1⟩

theorem canonical_of_resolveSql {sql : Sql}
    (hhonest : sql.Honest weightString users fromId toId cid)
    (hsucceeded : (resolveSql sql toId).1.status = .succeeded) :
    (weightString cid).length % 4 = 0 ∧
      (resolveSql sql toId).1.canonicalCid = (trimmed (weightString cid)).flatten := by
  by_cases hanswers : sql.Answers
  · rw [resolveSql_of_answers hanswers hhonest] at hsucceeded ⊢
    exact canonical_of_succeeded hsucceeded
  · unfold resolveSql at hsucceeded
    split at hsucceeded
    · cases hsucceeded
    next hacquired =>
    have hrows : sql.rows = none := by
      by_contra hrows
      exact hanswers ⟨by simpa using hacquired, hrows⟩
    simp_all

theorem canonical_of_resolve_none {sql : Sql}
    (hhonest : sql.Honest weightString users fromId toId cid)
    (hsucceeded : (resolve lib sql none fromId toId cid).1.status = .succeeded) :
    (weightString cid).length % 4 = 0 ∧
      (resolve lib sql none fromId toId cid).1.canonicalCid =
        (trimmed (weightString cid)).flatten := by
  rw [resolve_none] at hsucceeded ⊢
  split at hsucceeded
  · cases hsucceeded
  next hvalid =>
  rw [if_neg hvalid]
  cases hdump : lib.dump (.string cid) with
  | error what =>
    simp_all
  | ok text =>
    rw [hdump] at hsucceeded
    exact canonical_of_resolveSql hhonest hsucceeded

theorem canonical_of_made (hadditive : Additive weightString) {start : World}
    (hstart : Starts weightString start) {result : IdentityResult}
    (hmade : Made lib weightString start cid result) (hsucceeded : result.status = .succeeded) :
    (weightString cid).length % 4 = 0 ∧ result.canonicalCid = (trimmed (weightString cid)).flatten := by
  obtain ⟨labels, world, sql, fromId, toId, hrun, hhonest, rfl⟩ := hmade
  have hsound := hrun.invariant (fun _ _ _ h hstep => hstep.sound h) hstart.sound
  cases hcache : world.cache with
  | none =>
    rw [hcache] at hsucceeded
    exact canonical_of_resolve_none hhonest hsucceeded
  | some cache =>
    rw [hcache] at hsucceeded
    rcases resolve_some hadditive sql (hsound cache hcache) with heq | heq
    · rw [heq] at hsucceeded ⊢
      exact canonical_of_resolve_none hhonest hsucceeded
    · rw [heq] at hsucceeded ⊢
      exact canonical_of_resolve_none (.inr rfl) hsucceeded

theorem trimmed_inj {a b : Bytes} (ha : a.length % 4 = 0) (hb : b.length % 4 = 0) :
    (trimmed a).flatten = (trimmed b).flatten ↔ trimmed a = trimmed b := by
  refine ⟨fun h => ?_, fun h => congrArg _ h⟩
  rw [← weightsOf_flatten fun weight => length_of_mem_trimmed ha, h,
    weightsOf_flatten fun weight => length_of_mem_trimmed hb]

/-- A call with the cache gives what the call without it gives, where the authority answers, and what it
would give where it does not; two identities are the same where the weights are, without the spaces at
their end. -/
theorem resolve_agrees (lib : Json.Library) (weightString : Bytes → Bytes)
    (hadditive : Additive weightString) (start : World) (hstart : Starts weightString start)
    (labels : List Label) (world : World) (hrun : Run (Step lib weightString) start labels world)
    (sql : Sql) (fromId toId : UInt64) (cid : Bytes)
    (hhonest : sql.Honest weightString world.users fromId toId cid) :
    let cached := (resolve lib sql world.cache fromId toId cid).1
    let plain := (resolve lib sql none fromId toId cid).1
    (sql.Answers → cached = plain) ∧
    (cached = plain ∨ cached = (resolve lib
      (answering weightString world.users fromId toId cid) none fromId toId cid).1) ∧
    (cached.status = .succeeded → ∀ cid' result, Made lib weightString start cid' result →
      result.status = .succeeded →
        (cached.canonicalCid = result.canonicalCid ↔
          trimmed (weightString cid) = trimmed (weightString cid'))) := by
  have hsound := hrun.invariant (fun _ _ _ h hstep => hstep.sound h) hstart.sound
  have hagrees : (resolve lib sql world.cache fromId toId cid).1 =
        (resolve lib sql none fromId toId cid).1 ∨
      (resolve lib sql world.cache fromId toId cid).1 = (resolve lib
        (answering weightString world.users fromId toId cid) none fromId toId cid).1 := by
    cases hcache : world.cache with
    | none => exact .inl rfl
    | some cache => exact resolve_some hadditive sql (hsound cache hcache)
  refine ⟨fun hanswers => ?_, hagrees, fun hsucceeded cid' result hmade hresult => ?_⟩
  · rcases hagrees with heq | heq
    · exact heq
    · exact heq.trans (resolve_none_of_answers hanswers hhonest).symm
  · have hcached := canonical_of_made hadditive hstart
      ⟨labels, world, sql, fromId, toId, hrun, hhonest, rfl⟩ hsucceeded
    have hother := canonical_of_made hadditive hstart hmade hresult
    rw [hcached.2, hother.2]
    exact trimmed_inj hcached.1 hother.1

/-- Weights of which those of the letter `a` are the ones of the collation. -/
def sampleWeight (c : UInt8) : Bytes := if c = 65 ∨ c = 97 then ascii "0E33" else ascii "0E29"

def sampleWeightString (cid : Bytes) : Bytes := cid.flatMap sampleWeight

def sampleRows : List (List Bytes) :=
  alphabet.map fun c => [decimal c.toNat, sampleWeightString [c]]

def sampleCache : ImmutableCache :=
  { (makeCache sampleRows).getD {} with positiveUsers := [1, 2] }

def sampleWorld : World := { users := [1, 2], cache := some sampleCache }

def sampleLibrary : Json.Library :=
  { parse := fun _ => .ok .null, dump := fun _ => .ok (ascii "\"a\""), truncate := Rat.floor }

theorem additive_sample : Additive sampleWeightString := by
  intro cid _
  unfold sampleWeightString
  simp

/-- Good weights of characters that have none are added. -/
theorem foldlM_addWeight {letters : List UInt8} (hnodup : letters.Nodup)
    (hletters : ∀ c ∈ letters, c.toNat < 128 ∧ c ∈ alphabet)
    (hgood : ∀ c, (weightString [c]).length = 4 ∧ weightString [c] ≠ spaceWeight ∧
      (weightString [c]).all isHexDigit = true)
    (hlength : weights.length = 128) (hfree : ∀ c ∈ letters, weights.getD c.toNat [] = []) :
    ∃ weights', (letters.map fun c => [decimal c.toNat, weightString [c]]).foldlM addWeight weights =
        some weights' ∧
      ∀ c, weights'.getD c.toNat [] =
        if c ∈ letters then weightString [c] else weights.getD c.toNat [] := by
  induction letters generalizing weights with
  | nil => exact ⟨weights, rfl, fun c => (if_neg List.not_mem_nil).symm⟩
  | cons c letters ih =>
    rw [List.nodup_cons] at hnodup
    rw [List.forall_mem_cons] at hletters hfree
    have hget : ∀ d : UInt8, (weights.set c.toNat (weightString [c])).getD d.toNat [] =
        if d = c then weightString [c] else weights.getD d.toNat [] := by
      intro d
      split
      · next heq =>
        rw [heq, List.getD_eq_getElem?_getD, List.getElem?_set_self (hlength ▸ hletters.1.1)]
        rfl
      · next hne =>
        rw [List.getD_eq_getElem?_getD, List.getElem?_set_ne fun heq =>
          hne (UInt8.toNat_inj.1 heq.symm), ← List.getD_eq_getElem?_getD]
    have hadd : addWeight weights [decimal c.toNat, weightString [c]] =
        some (weights.set c.toNat (weightString [c])) := by
      obtain ⟨hfour, hspace, hhex⟩ := hgood c
      have hcode : ¬ (decimal c.toNat = [] ∨ (decimal c.toNat).all isDigit = false) := by
        rw [isDigit_decimal]
        exact fun h => decimal_ne_nil _ (h.resolve_right Bool.noConfusion)
      rw [addWeight, if_neg hcode, number_decimal]
      refine if_neg ?_
      simp only [UInt8.ofNat_toNat, hletters.1.2, hfree.1, hfour, hspace, hhex, not_le.2 hletters.1.1,
        not_true, ne_eq, or_self, Bool.true_eq_false, not_false_eq_true]
    obtain ⟨weights', hfold, hall⟩ := ih hnodup.2 hletters.2
      ((List.length_set).trans hlength) fun d hd => by
        rw [hget, if_neg (by rintro rfl; exact hnodup.1 hd)]
        exact hfree.2 d hd
    refine ⟨weights', ?_, fun d => ?_⟩
    · rw [List.map_cons, List.foldlM_cons, hadd]
      exact hfold
    · rw [hall, hget]
      by_cases heq : d = c
      · simp [heq, hnodup.1]
      · simp [heq]

theorem makeCache_alphabet
    (hgood : ∀ c, (weightString [c]).length = 4 ∧ weightString [c] ≠ spaceWeight ∧
      (weightString [c]).all isHexDigit = true) :
    ∃ cache, makeCache (alphabet.map fun c => [decimal c.toNat, weightString [c]]) = some cache ∧
      cache.positiveUsers = [] ∧
      ∀ c ∈ alphabet, cache.weight c = weightString [c] := by
  have halphabet : alphabet.Nodup ∧ ∀ c ∈ alphabet, c.toNat < 128 := by
    rw [alphabet, ascii_ofList]
    decide +kernel
  obtain ⟨weights, hfold, hweights⟩ := foldlM_addWeight halphabet.1
    (fun c hc => ⟨halphabet.2 c hc, hc⟩) hgood
    List.length_replicate fun c hc => by
      rw [List.getD_eq_getElem?_getD, List.getElem?_replicate]
      split <;> rfl
  refine ⟨{ weights }, ?_, rfl, fun c hc => (hweights c).trans (if_pos hc)⟩
  rw [makeCache, if_neg (by grind), hfold]
  rfl

theorem sampleWeight_good (c : UInt8) : (sampleWeightString [c]).length = 4 ∧
    sampleWeightString [c] ≠ spaceWeight ∧ (sampleWeightString [c]).all isHexDigit = true := by
  rw [sampleWeightString, List.flatMap_singleton, sampleWeight]
  split <;> exact ⟨by decide, by decide, by decide⟩

theorem canonical_sample : sampleCache.canonical (ascii "a") = some (ascii "0E33") := by
  obtain ⟨made, hmade, -, hweight⟩ := makeCache_alphabet sampleWeight_good
  have hcache : sampleCache.weight = made.weight := by
    rw [sampleCache, sampleRows, hmade]
    rfl
  have hletter : (97 : UInt8) ∈ alphabet := by
    rw [alphabet, ascii_ofList]
    decide
  have ha : ascii "a" = [97] := ascii_ofList _
  have hknown : ascii "0E33" ≠ [] := by
    rw [ascii_ofList]
    exact List.cons_ne_nil _ _
  simp [ImmutableCache.canonical, hcache, ha, hweight 97 hletter, sampleWeightString, sampleWeight,
    hknown]

theorem starts_sample : Starts sampleWeightString sampleWorld := by
  intro cache hcache
  obtain rfl := Option.some.inj hcache
  obtain ⟨made, hmade, -⟩ := makeCache_alphabet sampleWeight_good
  refine ⟨⟨sampleRows, made, fun row hrow => ?_, hmade, ?_⟩, fun id hid => hid⟩
  · obtain ⟨c, hc, rfl⟩ := List.mem_map.1 hrow
    exact ⟨c, hc, rfl⟩
  · rw [sampleCache, sampleRows, hmade]
    rfl

theorem resolve_agrees_sample :
    let sql := answering sampleWeightString [1, 2] 1 2 (ascii "a")
    (resolve sampleLibrary sql sampleWorld.cache 1 2 (ascii "a")).1 =
        (resolve sampleLibrary sql none 1 2 (ascii "a")).1 ∧
      (resolve sampleLibrary sql none 1 2 (ascii "a")).1.canonicalCid = ascii "0E33" :=
  ⟨(resolve_agrees sampleLibrary sampleWeightString additive_sample sampleWorld starts_sample []
    sampleWorld (.nil _) (answering sampleWeightString [1, 2] 1 2 (ascii "a")) 1 2 (ascii "a")
    (.inr rfl)).1 ⟨rfl, Option.some_ne_none _⟩, by decide⟩

/-- Without a connection the cache still answers. -/
theorem unavailable_resolved :
    Additive sampleWeightString ∧ Starts sampleWeightString sampleWorld ∧
      (resolve sampleLibrary { acquired := false } sampleWorld.cache 1 2 (ascii "a")).1.status =
        .succeeded ∧
      (resolve sampleLibrary { acquired := false } none 1 2 (ascii "a")).1.status = .storageError := by
  have hworld : sampleWorld.cache = some sampleCache := rfl
  refine ⟨additive_sample, starts_sample, ?_, by decide⟩
  rw [hworld, resolve_cached _ (by decide) rfl rfl canonical_sample]

end TinyImx.Local.LegacyIdentity
