import MetricStore.Common.Rounding
import MetricStore.Routing.RoutingTable

/-!
# The jump hash

Model of `jmphash.go`, the hasher of the routing table. The loop of `Hash` jumps ahead from
bucket to bucket and returns the last one below the number of buckets. How far it jumps is
computed in `float64`: a quotient and a product, each rounded, of which the integer part is
taken. The model rounds as the format does.

Nothing in the loop says that it ends: it does because rounding never brings the product
below the bucket it started from.

Main results:

* `hash_consistent`: the hash is a bucket; with more buckets, a key keeps its bucket or
  moves to one of those that are new.
* `lookup_of_added_node`: what a new node changes about the nodes of an item. As long as the
  first node stays, the item gives up one node at most. Where it moves, all nodes of the
  item move with it.
-/

namespace MetricStore.Routing

open MetricStore.Common MetricStore.Common.Float64

/-! ## Model -/

/-- `Hasher` (jmphash.go:4–6). The number of buckets is an `int32`, and `NewHasher` makes none
    without a bucket. -/
structure Hasher where
  n : ℕ
  pos : 0 < n
  lt : n < 2 ^ 31

/-- `NewHasher` (jmphash.go:10–15), for a number that an `int32` holds. -/
def newHasher (n : ℤ) (h : n < 2 ^ 31) : Hasher :=
  if hn : n ≤ 0 then ⟨1, by omega, by omega⟩ else ⟨n.toNat, by omega, by omega⟩

/-- `key*uint64(2862933555777941757) + 1` (jmphash.go:25). -/
def nextKey (key : UInt64) : UInt64 := key * 2862933555777941757 + 1

/-- `float64(int64(1)<<31) / float64((key>>33)+1)` (jmphash.go:26). -/
def stretch (key : UInt64) : ℚ :=
  roundRat (toRat (ofInt (2 ^ 31)) / toRat (ofInt ((key >>> 33) + 1).toNat))

/-- `int64(float64(b+1) * …)` (jmphash.go:26). -/
def jumpAhead (b : ℕ) (key : UInt64) : ℕ :=
  ⌊roundRat (toRat (ofInt (b + 1)) * stretch key)⌋₊

/-! ## The jump -/

/-- The divisor is exact: of the key, 31 bits are left. -/
theorem divisor_bounds (key : UInt64) :
    (1 : ℚ) ≤ toRat (ofInt ((key >>> 33) + 1).toNat) ∧
      toRat (ofInt ((key >>> 33) + 1).toNat) ≤ (2 : ℚ) ^ 31 := by
  have hkey : ((key >>> 33) + 1).toNat = key.toNat / 2 ^ 33 + 1 := by
    have := key.toNat_lt
    rw [UInt64.toNat_add, UInt64.toNat_shiftRight, Nat.shiftRight_eq_div_pow]
    show (key.toNat / 2 ^ 33 + 1) % 2 ^ 64 = key.toNat / 2 ^ 33 + 1
    omega
  have hlt : key.toNat / 2 ^ 33 < 2 ^ 31 := by
    have := key.toNat_lt
    omega
  rw [hkey, toRat_ofInt_of_le (by omega) (by omega)]
  constructor
  · norm_cast
    omega
  · norm_cast

theorem toRat_two_pow_31 : toRat (ofInt (2 ^ 31)) = 2 ^ 31 := by
  rw [toRat_ofInt_of_le (by norm_num) (by norm_num)]
  norm_num

theorem toRat_one : toRat (ofInt 1) = 1 := by
  rw [toRat_ofInt_of_le (by norm_num) (by norm_num)]
  norm_num

/-- The quotient is one at least, and stays so when it is rounded. -/
theorem stretch_bounds (key : UInt64) : 1 ≤ stretch key ∧ stretch key ≤ 2 ^ 31 := by
  obtain ⟨hlow, hhigh⟩ := divisor_bounds key
  have hpos : (0 : ℚ) < toRat (ofInt ((key >>> 33) + 1).toNat) := by linarith
  have hquotient : (1 : ℚ) ≤ toRat (ofInt (2 ^ 31)) / toRat (ofInt ((key >>> 33) + 1).toNat) := by
    rw [le_div_iff₀ hpos, one_mul, toRat_two_pow_31]
    exact hhigh
  have hquotient' : toRat (ofInt (2 ^ 31)) / toRat (ofInt ((key >>> 33) + 1).toNat) ≤
      toRat (ofInt (2 ^ 31)) := by
    rw [div_le_iff₀ hpos, toRat_two_pow_31]
    nlinarith
  constructor
  · rw [← toRat_one]
    apply le_roundRat hquotient
    rwa [toRat_one]
  · rw [← toRat_two_pow_31]
    exact roundRat_le hquotient hquotient'

/-- The jump goes ahead, and what is converted to an `int64` fits into one. -/
theorem jumpAhead_bounds {b : ℕ} (hb : b < 2 ^ 31) (key : UInt64) :
    b < jumpAhead b key ∧ jumpAhead b key < 2 ^ 63 := by
  obtain ⟨hlow, hhigh⟩ := stretch_bounds key
  have hfactor : toRat (ofInt (b + 1)) = b + 1 := by
    rw [toRat_ofInt_of_le (by omega) (by omega)]
    norm_cast
  have hb0 : (0 : ℚ) ≤ b := Nat.cast_nonneg b
  have hb' : (b : ℚ) + 1 ≤ 2 ^ 31 := by exact_mod_cast hb
  have hproduct : toRat (ofInt (b + 1)) ≤ toRat (ofInt (b + 1)) * stretch key := by
    rw [hfactor]
    nlinarith
  have hone : 1 ≤ toRat (ofInt (b + 1)) * stretch key := by
    rw [hfactor] at hproduct ⊢
    linarith
  constructor
  · -- the factor is a number of the format: rounding does not go below it
    have hround := le_roundRat hone hproduct
    rw [hfactor] at hround
    unfold jumpAhead
    rw [hfactor, ← Nat.succ_le_iff, Nat.le_floor_iff (by linarith)]
    push_cast
    exact hround
  · have htop : toRat (ofInt (2 ^ 62)) = 2 ^ 62 := by
      rw [toRat_ofInt (by norm_num), if_neg (by norm_num)]
      have : round53 (2 ^ 62 : ℤ).natAbs = 2 ^ 62 := by decide
      rw [this]
      norm_num
    have hle : toRat (ofInt (b + 1)) * stretch key ≤ toRat (ofInt (2 ^ 62)) := by
      rw [hfactor, htop]
      nlinarith
    have hround := roundRat_le hone hle
    rw [htop] at hround
    unfold jumpAhead
    rw [Nat.floor_lt' (by norm_num)]
    push_cast
    linarith

namespace Hasher

/-- The loop of `Hash` (jmphash.go:23–27). -/
def loop (h : Hasher) (b : ℤ) (j : ℕ) (key : UInt64) : ℤ :=
  if _hj : j < h.n then h.loop j (jumpAhead j (nextKey key)) (nextKey key) else b
termination_by h.n - j
decreasing_by
  have := h.lt
  have := (jumpAhead_bounds (by omega : j < 2 ^ 31) (nextKey key)).1
  omega

/-- `Hash` (jmphash.go:21–29). -/
def hash (h : Hasher) (key : UInt64) : ℤ := h.loop (-1) 0 key

/-! ## The loop -/

variable {h h' : Hasher} {b : ℤ} {j : ℕ} {key : UInt64}

theorem loop_of_lt (hj : j < h.n) :
    h.loop b j key = h.loop j (jumpAhead j (nextKey key)) (nextKey key) := by
  rw [loop, dif_pos hj]

theorem loop_of_le (hj : h.n ≤ j) : h.loop b j key = b := by
  rw [loop, dif_neg (by omega)]

theorem lt_jumpAhead (hj : j < h.n) (key : UInt64) : j < jumpAhead j (nextKey key) :=
  (jumpAhead_bounds (hj.trans h.lt) _).1

/-- The loop returns a bucket it has not passed. -/
theorem le_loop (hb : b < j) : b ≤ h.loop b j key := by
  induction b, j, key using loop.induct h with
  | case1 b j key hj ih =>
    rw [loop_of_lt hj]
    have hnext := lt_jumpAhead hj key
    have hle := ih (by exact_mod_cast hnext)
    omega
  | case2 b j key hj =>
    rw [loop_of_le (by omega)]

theorem loop_lt (hb : b < h.n) : h.loop b j key < h.n := by
  induction b, j, key using loop.induct h with
  | case1 b j key hj ih =>
    rw [loop_of_lt hj]
    exact ih (by exact_mod_cast hj)
  | case2 b j key hj =>
    rwa [loop_of_le (by omega)]

/-- Both loops make the same jumps as long as they are below the smaller number of buckets.
    From there the second one returns a bucket that the first one does not have, or stops as
    well. -/
theorem loop_grow (hn : h.n ≤ h'.n) :
    h'.loop b j key = h.loop b j key ∨ (h.n : ℤ) ≤ h'.loop b j key := by
  induction b, j, key using loop.induct h with
  | case1 b j key hj ih =>
    rw [loop_of_lt hj, loop_of_lt (show j < h'.n by omega)]
    exact ih
  | case2 b j key hj =>
    rw [loop_of_le (h := h) (by omega)]
    by_cases hj' : j < h'.n
    · right
      rw [loop_of_lt hj']
      have hnext := lt_jumpAhead hj' key
      have hle : (j : ℤ) ≤ h'.loop j (jumpAhead j (nextKey key)) (nextKey key) := by
        apply le_loop
        exact_mod_cast hnext
      omega
    · left
      rw [loop_of_le (by omega)]

theorem hash_bounds (h : Hasher) (key : UInt64) : 0 ≤ h.hash key ∧ h.hash key < h.n := by
  have hpos := h.pos
  unfold hash
  constructor
  · -- the first round is always made
    rw [loop_of_lt hpos]
    apply le_loop
    exact_mod_cast lt_jumpAhead hpos key
  · apply loop_lt
    omega

/-- A hasher with more buckets gives a key the same one, or one the other does not have. -/
theorem hash_grow (hn : h.n ≤ h'.n) (key : UInt64) :
    h'.hash key = h.hash key ∨ (h.n : ℤ) ≤ h'.hash key :=
  loop_grow hn

end Hasher

theorem newHasher_n {n : ℕ} (hpos : 0 < n) (h : (n : ℤ) < 2 ^ 31) : (newHasher n h).n = n := by
  unfold newHasher
  rw [dif_neg (by omega)]
  exact Int.toNat_natCast n

/-- **The jump hash is consistent.** The loop ends with a bucket. A hasher for more buckets
    gives a key the same one, or one of those that the smaller hasher does not have: between
    the old buckets nothing moves. -/
theorem hash_consistent {n m : ℕ} (hpos : 0 < n) (hle : n ≤ m) (hn : (n : ℤ) < 2 ^ 31)
    (hm : (m : ℤ) < 2 ^ 31) (key : UInt64) :
    (0 ≤ (newHasher n hn).hash key ∧ (newHasher n hn).hash key < n) ∧
      ((newHasher m hm).hash key = (newHasher n hn).hash key ∨
        (n ≤ (newHasher m hm).hash key ∧ (newHasher m hm).hash key < m)) := by
  have hcount := newHasher_n hpos hn
  have hcount' := newHasher_n (hpos.trans_le hle) hm
  have hold := (newHasher n hn).hash_bounds key
  have hnew := (newHasher m hm).hash_bounds key
  have hgrow := Hasher.hash_grow (show (newHasher n hn).n ≤ (newHasher m hm).n by omega) key
  rw [hcount] at hold hgrow
  rw [hcount'] at hnew
  refine ⟨hold, ?_⟩
  rcases hgrow with heq | hge
  · exact Or.inl heq
  · exact Or.inr ⟨hge, hnew.2⟩

theorem hash_consistent_three_five :
    (0 ≤ (newHasher 3 (by omega)).hash 42 ∧ (newHasher 3 (by omega)).hash 42 < 3) ∧
      ((newHasher 5 (by omega)).hash 42 = (newHasher 3 (by omega)).hash 42 ∨
        (3 ≤ (newHasher 5 (by omega)).hash 42 ∧ (newHasher 5 (by omega)).hash 42 < 5)) :=
  hash_consistent (n := 3) (m := 5) (by omega) (by omega) (by omega) (by omega) 42

/-! ## Routing with it -/

/-- `jmphash.NewHasher(n).Hash(v)`. -/
def jump (n : ℕ) (v : UInt64) : ℕ :=
  if h : (n : ℤ) < 2 ^ 31 then ((newHasher n h).hash v).toNat else 0

theorem jump_lt {n : ℕ} (hpos : 0 < n) (v : UInt64) : jump n v < n := by
  unfold jump
  split_ifs with hn
  · have hbounds := (newHasher n hn).hash_bounds v
    rw [newHasher_n hpos hn] at hbounds
    omega
  · exact hpos

/-- One more bucket: a key stays, or moves to the new one. -/
theorem jump_succ {n : ℕ} (hpos : 0 < n) (hn : n + 1 < 2 ^ 31) (v : UInt64) :
    jump (n + 1) v = jump n v ∨ jump (n + 1) v = n := by
  have hlt : (n : ℤ) < 2 ^ 31 := by omega
  have hlt' : ((n + 1 : ℕ) : ℤ) < 2 ^ 31 := by omega
  have hcount := newHasher_n hpos hlt
  have hcount' := newHasher_n (by omega : 0 < n + 1) hlt'
  have hbounds := (newHasher (n + 1 : ℕ) hlt').hash_bounds v
  have hgrow := Hasher.hash_grow
    (show (newHasher n hlt).n ≤ (newHasher (n + 1 : ℕ) hlt').n by omega) v
  unfold jump
  rw [dif_pos hlt, dif_pos hlt']
  rcases hgrow with heq | hge
  · exact Or.inl (by rw [heq])
  · right
    omega

/-- The hash functions of the routing table; `sum64` is `xxhash.Sum64String`. -/
def jumpHashing (sum64 : Bytes → UInt64) : Hashing := ⟨sum64, jump, jump_lt⟩

/-! ## One more node -/

theorem mod_of_lt_two_mul {x m : ℕ} (h : x < 2 * m) : x % m = if x < m then x else x - m := by
  split_ifs with hlt
  · exact Nat.mod_eq_of_lt hlt
  · rw [Nat.mod_eq_sub_mod (by omega), Nat.mod_eq_of_lt (by omega)]

/-- Nodes that do not go around are the same in a larger cluster. -/
theorem consecutive_of_le {m node count : ℕ} (hfit : node + count ≤ m) :
    ((List.range count).map fun n => (node + n) % (m + 1)) =
      (List.range count).map fun n => (node + n) % m := by
  apply List.map_congr_left
  intro n hn
  have := List.mem_range.mp hn
  rw [Nat.mod_eq_of_lt (by omega), Nat.mod_eq_of_lt (by omega)]

/-- Nodes that go around take the new one in, and give up the last. -/
theorem consecutive_perm {m node count : ℕ} (hnode : node < m) (hcount : count ≤ m)
    (hround : m < node + count) :
    ((List.range count).map fun n => (node + n) % (m + 1)).Perm
      (m :: ((List.range count).map fun n => (node + n) % m).dropLast) := by
  obtain ⟨count, rfl⟩ : ∃ c, count = c + 1 := ⟨count - 1, by omega⟩
  have hlast : ((List.range (count + 1)).map fun n => (node + n) % m).dropLast =
      (List.range count).map fun n => (node + n) % m := by
    rw [List.range_succ, List.map_append, List.map_singleton, List.dropLast_concat]
  rw [hlast]
  have hnodup := (nodup_consecutive_iff (Nat.succ_pos m) node (count + 1)).2 (by omega)
  have hnodup' := (nodup_consecutive_iff (by omega : 0 < m) node count).2 (by omega)
  have hnew : m ∉ (List.range count).map fun n => (node + n) % m := by
    intro hmem
    obtain ⟨n, -, heq⟩ := List.mem_map.mp hmem
    have := Nat.mod_lt (node + n) (by omega : 0 < m)
    omega
  rw [List.perm_ext_iff_of_nodup hnodup (List.nodup_cons.2 ⟨hnew, hnodup'⟩)]
  intro x
  simp only [List.mem_map, List.mem_range, List.mem_cons]
  constructor
  · rintro ⟨n, hn, rfl⟩
    rw [mod_of_lt_two_mul (by omega : node + n < 2 * (m + 1))]
    split_ifs with hlt
    · rcases Nat.lt_or_eq_of_le (Nat.le_of_lt_succ hlt) with hbelow | heq
      · refine Or.inr ⟨n, by omega, Nat.mod_eq_of_lt hbelow⟩
      · exact Or.inl heq
    · -- past the new node each one comes one place later
      refine Or.inr ⟨n - 1, by omega, ?_⟩
      rw [mod_of_lt_two_mul (by omega), if_neg (by omega)]
      omega
  · rintro (rfl | ⟨n, hn, rfl⟩)
    · exact ⟨x - node, by omega, by rw [Nat.mod_eq_of_lt (by omega)]; omega⟩
    · rw [mod_of_lt_two_mul (by omega : node + n < 2 * m)]
      split_ifs with hlt
      · exact ⟨n, by omega, Nat.mod_eq_of_lt (by omega)⟩
      · refine ⟨n + 1, by omega, ?_⟩
        rw [mod_of_lt_two_mul (by omega), if_neg (by omega)]
        omega

/-- From the new node on: itself, and then the first ones. -/
theorem consecutive_from_last {m count : ℕ} (hpos : 0 < count) (hcount : count ≤ m) :
    ((List.range count).map fun n => (m + n) % (m + 1)) = m :: List.range (count - 1) := by
  obtain ⟨count, rfl⟩ : ∃ c, count = c + 1 := ⟨count - 1, by omega⟩
  rw [List.range_succ_eq_map, List.map_cons, List.map_map, Nat.add_sub_cancel]
  congr 1
  · exact Nat.mod_eq_of_lt (by omega)
  · rw [← List.map_id (List.range count)]
    rw [List.map_map]
    apply List.map_congr_left
    intro n hn
    have := List.mem_range.mp hn
    show (m + (n + 1)) % (m + 1) = n
    rw [mod_of_lt_two_mul (by omega), if_neg (by omega)]
    omega

/-- The nodes of an item, where no address is listed twice. -/
theorem nodesOf_jumpHashing (sum64 : Bytes → UInt64) {addrs : List Bytes} (hnodup : addrs.Nodup)
    (replicationFactor : ℕ) (item : Bytes) :
    nodesOf (jumpHashing sum64) addrs replicationFactor item =
      (List.range replicationFactor).map
        fun n => (jump addrs.length (sum64 item) + n) % addrs.length := by
  unfold nodesOf jumpHashing
  rw [hnodup.dedup]

/-- **A node is added.** The nodes of an item start at the one the hasher gives it. If that
    one stays, the item keeps its nodes, or the new node takes the place of the last one. If it
    moves, it moves to the new node, and the others are the first nodes of the cluster, no
    matter where the item was before. -/
theorem lookup_of_added_node (sum64 : Bytes → UInt64) {localNode localNode' : ℤ}
    {addrs : List Bytes} {addr : Bytes} {replicationFactor : ℕ} {t t' : RoutingTable}
    (ht : newRoutingTable localNode addrs replicationFactor = .ok t)
    (ht' : newRoutingTable localNode' (addrs ++ [addr]) replicationFactor = .ok t')
    (hnodup : (addrs ++ [addr]).Nodup) (hlt : addrs.length + 1 < 2 ^ 31) (item : Bytes) :
    (jump (addrs.length + 1) (sum64 item) = jump addrs.length (sum64 item) ∧
        if jump addrs.length (sum64 item) + replicationFactor ≤ addrs.length then
          t'.lookup (jumpHashing sum64) item = t.lookup (jumpHashing sum64) item
        else
          (t'.lookup (jumpHashing sum64) item).Perm
            (addrs.length :: (t.lookup (jumpHashing sum64) item).dropLast)) ∨
      (jump (addrs.length + 1) (sum64 item) = addrs.length ∧
        t'.lookup (jumpHashing sum64) item =
          addrs.length :: List.range (replicationFactor - 1)) := by
  obtain ⟨hpos, hle, -⟩ := newRoutingTable_eq_ok_iff.mp ht
  have hlookup : t.lookup (jumpHashing sum64) item = (List.range replicationFactor).map
      fun n => (jump addrs.length (sum64 item) + n) % addrs.length := by
    rw [lookup_of_newRoutingTable ht, nodesOf_jumpHashing sum64 (List.nodup_append.1 hnodup).1]
  have hlookup' : t'.lookup (jumpHashing sum64) item = (List.range replicationFactor).map
      fun n => (jump (addrs.length + 1) (sum64 item) + n) % (addrs.length + 1) := by
    rw [lookup_of_newRoutingTable ht', nodesOf_jumpHashing sum64 hnodup, List.length_append,
      List.length_singleton]
  have hfirst := jump_lt (by omega : 0 < addrs.length) (sum64 item)
  rw [hlookup, hlookup']
  rcases jump_succ (by omega : 0 < addrs.length) hlt (sum64 item) with hstay | hmove
  · left
    refine ⟨hstay, ?_⟩
    rw [hstay]
    split_ifs with hfit
    · exact consecutive_of_le hfit
    · exact consecutive_perm hfirst hle (by omega)
  · right
    refine ⟨hmove, ?_⟩
    rw [hmove]
    exact consecutive_from_last hpos hle

/-- The table of the first of three nodes, with two replicas. -/
def threeNodes : RoutingTable := ⟨0, GoMap.ofPairs [([1], 0), ([2], 1), ([3], 2)], 2, 3, []⟩

/-- The table of the same node, after a fourth one was added. -/
def fourNodes : RoutingTable :=
  ⟨0, GoMap.ofPairs [([1], 0), ([2], 1), ([3], 2), ([4], 3)], 2, 4, []⟩

theorem lookup_of_added_node_fourth :
    (jump 4 42 = jump 3 42 ∧
        if jump 3 42 + 2 ≤ 3 then
          fourNodes.lookup (jumpHashing fun _ => 42) [7] =
            threeNodes.lookup (jumpHashing fun _ => 42) [7]
        else
          (fourNodes.lookup (jumpHashing fun _ => 42) [7]).Perm
            (3 :: (threeNodes.lookup (jumpHashing fun _ => 42) [7]).dropLast)) ∨
      (jump 4 42 = 3 ∧ fourNodes.lookup (jumpHashing fun _ => 42) [7] = [3, 0]) := by
  have hthree : newRoutingTable 0 [[1], [2], [3]] 2 = .ok threeNodes := rfl
  have hfour : newRoutingTable 0 ([[1], [2], [3]] ++ [[4]]) 2 = .ok fourNodes := rfl
  exact lookup_of_added_node (fun _ => 42) hthree hfour (by decide) (by decide) [7]

end MetricStore.Routing
