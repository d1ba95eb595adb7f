import Tinu.Registrations

/-!
# The names of core dumps (`utils.c`)

`core_file_name` writes the names of the suite and the test, with a dot between them, into a
buffer that may cut them off.

* `take_ne_iff` — when two strings differ before they are cut off;
* `testPath_injective` — a name has no dot, so the two names can be told apart;
* `coreFileName_names_iff`, `coreFileName_ne_iff` — when two core dumps have names of their own.
-/

set_option autoImplicit false

namespace Tinu

/-- The size of `res` in `core_file_name`. -/
def coreBufferSize : Nat := 1024

/-- `snprintf` with the string that its format gives. -/
def snprintf (size : Nat) (s : CString) : CString := s.take (size - 1)

/-- `"/core."`. -/
def coreInfix : CString := ['/', 'c', 'o', 'r', 'e', '.']

/-- `"%s.%s"`. -/
def testPath (suite test : CString) : CString := suite ++ '.' :: test

/-- `core_file_name`. -/
def coreFileName (dir suite test : CString) : CString :=
  snprintf coreBufferSize (dir ++ coreInfix ++ testPath suite test)

/-- The number of characters that two strings begin with in common. -/
def commonLength : CString → CString → Nat
  | x :: a, y :: b => if x = y then commonLength a b + 1 else 0
  | _, _ => 0

/-- What is left of a name in the buffer. -/
def coreRoom (dir : CString) : Nat := coreBufferSize - 1 - (dir.length + coreInfix.length)

/-- **Strings that differ** do so before they are cut off, or are cut off where they still agree. -/
theorem take_ne_iff : ∀ {a b : CString} (n : Nat), a ≠ b →
    (a.take n ≠ b.take n ↔ commonLength a b < n)
  | [], [], _, h => absurd rfl h
  | [], y :: b, 0, _ => by simp
  | [], y :: b, n + 1, _ => by simp [commonLength]
  | x :: a, [], 0, _ => by simp
  | x :: a, [], n + 1, _ => by simp [commonLength]
  | x :: a, y :: b, 0, _ => by simp
  | x :: a, y :: b, n + 1, h => by
    rw [commonLength, List.take_succ_cons, List.take_succ_cons]
    by_cases hxy : x = y
    · subst hxy
      have hne : a ≠ b := fun hab => h (by rw [hab])
      have ih := take_ne_iff n hne
      rw [if_pos rfl, Nat.succ_lt_succ_iff, ← ih, ne_eq, List.cons.injEq, eq_self, true_and]
    · rw [if_neg hxy]
      exact ⟨fun _ => Nat.succ_pos n, fun _ he => hxy (List.cons.inj he).1⟩

/-- **The two names can be told apart**, as that of the suite has no dot. -/
theorem testPath_injective : ∀ {suite1 suite2 test1 test2 : CString}, '.' ∉ suite1 → '.' ∉ suite2 →
    testPath suite1 test1 = testPath suite2 test2 → suite1 = suite2 ∧ test1 = test2
  | [], [], _, _, _, _, h => ⟨rfl, (List.cons.inj h).2⟩
  | [], c :: suite2, _, _, _, h2, h => by
    rw [(List.cons.inj h).1] at h2
    exact absurd List.mem_cons_self h2
  | c :: suite1, [], _, _, h1, _, h => by
    rw [← (List.cons.inj h).1] at h1
    exact absurd List.mem_cons_self h1
  | c :: suite1, d :: suite2, test1, test2, h1, h2, h => by
    obtain ⟨hcd, hrest⟩ := List.cons.inj h
    obtain ⟨hsuite, htest⟩ := testPath_injective (fun hm => h1 (List.mem_cons_of_mem _ hm))
      (fun hm => h2 (List.mem_cons_of_mem _ hm)) hrest
    exact ⟨by rw [hcd, hsuite], htest⟩

/-- Two names from the same directory differ exactly when what the buffer leaves of them does. -/
theorem coreFileName_ne_take (dir suite1 test1 suite2 test2 : CString) :
    coreFileName dir suite1 test1 ≠ coreFileName dir suite2 test2 ↔
      (testPath suite1 test1).take (coreRoom dir) ≠ (testPath suite2 test2).take (coreRoom dir) := by
  simp only [coreFileName, snprintf, coreRoom, List.take_append, List.length_append]
  exact not_congr (List.append_right_inj _)

/-- **Accepted names** give names of core dumps that differ when the first difference fits into
the buffer. -/
theorem coreFileName_names_iff (dir : CString) {suite1 test1 suite2 test2 : CString}
    (h1 : testValidateName suite1 = true) (h2 : testValidateName suite2 = true)
    (hne : (suite1, test1) ≠ (suite2, test2)) :
    coreFileName dir suite1 test1 ≠ coreFileName dir suite2 test2 ↔
      commonLength (testPath suite1 test1) (testPath suite2 test2) < coreRoom dir := by
  rw [coreFileName_ne_take]
  refine take_ne_iff _ fun hpath => hne ?_
  obtain ⟨hsuite, htest⟩ := testPath_injective ((validateName_iff suite1).mp h1).1
    ((validateName_iff suite2).mp h2).1 hpath
  rw [hsuite, htest]

/-- **The core dumps of two tests of a context** have names of their own exactly when their names,
suite and test with a dot between, differ before the buffer cuts them off. -/
theorem coreFileName_ne_iff {c : TestContext} (hc : ContextWf c) (dir : CString)
    {s1 s2 : TestSuite} (hs1 : s1 ∈ c.suites) (hs2 : s2 ∈ c.suites) {t1 t2 : TestCase}
    (ht1 : t1 ∈ s1.tests) (ht2 : t2 ∈ s2.tests) (hne : t1 ≠ t2) :
    coreFileName dir s1.name t1.name ≠ coreFileName dir s2.name t2.name ↔
      commonLength (testPath s1.name t1.name) (testPath s2.name t2.name) < coreRoom dir := by
  refine coreFileName_names_iff dir (hc.suites s1 hs1).name (hc.suites s2 hs2).name fun heq => hne ?_
  obtain rfl := eq_of_key hc.names hs1 hs2 (Prod.mk.inj heq).1
  exact eq_of_key (hc.suites s1 hs1).testNames ht1 ht2 (Prod.mk.inj heq).2

/-- A suite of two tests. -/
def twoTests : TestSuite :=
  ⟨1, ['s'], [⟨2, ⟨1, ['s']⟩, ['a'], none, none, none, .data NULL, none⟩,
    ⟨3, ⟨1, ['s']⟩, ['b'], none, none, none, .data NULL, none⟩]⟩

theorem twoTests_wf : ContextWf ⟨[twoTests], true, false, 4⟩ where
  names := by decide
  addrs := by decide
  suites := by
    intro s hs
    obtain rfl := List.mem_singleton.mp hs
    exact ⟨by decide, by decide, by decide, by decide, by decide, by decide, by decide, by decide⟩

/-- In `/tmp` the two tests have core dumps of their own. -/
theorem coreFileName_ne_iff_tmp :
    coreFileName ['/', 't', 'm', 'p'] ['s'] ['a'] ≠ coreFileName ['/', 't', 'm', 'p'] ['s'] ['b'] :=
  (@coreFileName_ne_iff _ twoTests_wf ['/', 't', 'm', 'p'] twoTests twoTests List.mem_cons_self
    List.mem_cons_self _ _ List.mem_cons_self (List.mem_cons_of_mem _ List.mem_cons_self)
    (by decide)).mpr (by decide)

/-- In a directory of 1017 characters nothing is left of the names. -/
theorem coreFileName_long_dir :
    ¬ ∀ (c : TestContext), ContextWf c → ∀ (dir : CString), ∀ s1 ∈ c.suites, ∀ s2 ∈ c.suites,
      ∀ t1 ∈ s1.tests, ∀ t2 ∈ s2.tests, t1 ≠ t2 →
        coreFileName dir s1.name t1.name ≠ coreFileName dir s2.name t2.name := by
  intro hall
  have hne := hall _ twoTests_wf (List.replicate 1017 'd') _ List.mem_cons_self _ List.mem_cons_self
    _ List.mem_cons_self _ (List.mem_cons_of_mem _ List.mem_cons_self) (by decide)
  have hroom : coreRoom (List.replicate 1017 'd') = 0 := by
    rw [coreRoom, List.length_replicate]
    rfl
  rw [coreFileName_ne_take, hroom] at hne
  exact hne rfl

end Tinu
