import Footage.Archive
import Footage.Proofs.Listing.Page
import Footage.Proofs.Rollup.History
import Footage.Proofs.Token

/-!
# Tokens are bound to their partitions

1. A token is decoded to its key for the partition of the key, and refused for every other one, also with
   blanks around it (`Token.decode_between`). So no two keys have one token (`Token.encode_inj`).
2. An `Inquiry` asks for a page of some listing. It looks at its token before it reads anything, so that
   with a token which it cannot decode nothing happens (`Inquiry.ask_of_decode_eq_error`).
3. The items that a listing gathers, and so the keys that its tokens name, are of its own partition and
   within its range (`Listing.Gathering.within`, `Inquiry.ask_names`).
-/

namespace Footage

open Footage.Task

variable {σ : Type} {p : Paging}

namespace Token

variable {k k' : Key}

theorem mem_alphabet_of_mem_encode {c : Char} (h : c ∈ (encode k).toList) :
    c ∈ Base64Url.alphabet.toList := by
  unfold encode at h
  rw [String.toList_ofList] at h
  exact Base64Url.mem_alphabet_of_mem_encode h

theorem decode_between (h : Stamp.Fits k.sort) {w w' : String} (hw : ∀ c ∈ w.toList, Text.isBlank c)
    (hw' : ∀ c ∈ w'.toList, Text.isBlank c) (partition : String) :
    decode partition (w ++ encode k ++ w') =
      if k.partition = partition then .ok k else .error (.foreign k.partition partition) := by
  have hlist : w ++ encode k ++ w' = String.ofList (w.toList ++ ((encode k).toList ++ w'.toList)) := by
    apply String.ext
    rw [String.toList_append, String.toList_append, String.toList_ofList, List.append_assoc]
  rw [hlist]
  exact decode_blanks h hw hw' partition

theorem encode_inj (h : Stamp.Fits k.sort) (h' : Stamp.Fits k'.sort) (heq : encode k' = encode k) :
    k' = k := by
  have hnone : ∀ c ∈ ("" : String).toList, Text.isBlank c := fun _ hc => absurd hc List.not_mem_nil
  have hk := decode_between h hnone hnone k'.partition
  rw [String.empty_append, String.append_empty, ← heq, decode_encode h'] at hk
  by_cases hp : k.partition = k'.partition
  · rw [if_pos hp] at hk
    exact Except.ok.inj hk
  · rw [if_neg hp] at hk
    exact absurd hk (by simp)

end Token

/-! ## What a listing gathers -/

namespace Listing

variable {b : Backend σ} {I : σ → Prop} {E : StoreError → Prop} {items : List Item} {r : Request}
  {after : Option Key} {first : Int} {g : Gathered}

/-- The key is one of the listing's. -/
def Request.Owns (r : Request) (k : Key) : Prop :=
  k.partition = r.partition ∧ r.start ≤ k.sort ∧ k.sort < r.stop

/-- The items are of the listing, whatever the store holds. -/
def Within (r : Request) (g : Gathered) : Prop := g.stop ≤ r.stop ∧ ∀ i ∈ g.items, r.Owns i.key

theorem Request.Owns.fits {k : Key} (h : r.Owns k) (hstart : Stamp.Fits r.start) (hstop : Stamp.Fits r.stop) :
    Stamp.Fits k.sort := by
  obtain ⟨-, hl, hu⟩ := h
  exact ⟨Int.le_trans hstart.1 hl, Int.le_trans (Int.le_of_lt hu) hstop.2⟩

theorem of_lastBucket_eq_ok {t : Int} (h : r.lastBucket = .ok t) : r.stop - r.bucketMillis = t := by
  unfold Request.lastBucket at h
  cases hfit : Stamp.fit? (r.stop - r.bucketMillis) with
  | none =>
    rw [hfit] at h
    exact absurd h (by simp)
  | some u =>
    rw [hfit] at h
    rw [(Stamp.fit?_eq_some.1 hfit).2, Except.ok.inj h]

theorem owns_of_mem_select {upper : Int} (hu : upper ≤ r.stop - r.bucketMillis) {i : Item}
    (hi : i ∈ ((query r p upper).resumed after).select items) : r.Owns i.key := by
  obtain ⟨-, hp, hl, hle⟩ := RangeRead.mem_select.1 hi
  have hlower : r.start ≤ i.key.sort := Int.le_trans (RangeRead.lower_le_least _) hl
  have hb := bucketMillis_pos r
  have hupper : i.key.sort ≤ upper := hle
  exact ⟨hp, hlower, by omega⟩

theorem owns_of_answers {page : RangePage} {left : List Item}
    (h : Answers items ((query r p (r.stop - r.bucketMillis)).resumed after) page left) {i : Item}
    (hi : i ∈ page.items) : r.Owns i.key := by
  have hmem := List.mem_append_left left hi
  rw [← h.select_eq] at hmem
  exact owns_of_mem_select (Int.le_refl _) hmem

theorem Gathering.within (h : Gathering r p items after g) : Within r g := by
  cases h with
  | none h => exact ⟨Int.le_refl _, fun _ hi => absurd hi List.not_mem_nil⟩
  | final hans hnext => exact ⟨Int.le_refl _, fun _ hi => owns_of_answers hans hi⟩
  | aligned hans hlast hfit => exact ⟨endOfPeriod_le _, fun _ hi => owns_of_answers hans hi⟩
  | spilled hans hk hlast =>
    refine ⟨endOfPeriod_le _, fun i hi => ?_⟩
    rcases List.mem_append.1 hi with hi | hi
    · exact owns_of_answers hans hi
    · exact owns_of_mem_select (Int.min_le_right _ _) hi

/-- The key that a page names is of its listing. -/
theorem owns_of_mem_resumeKey? (hi : 0 < r.increment) (hfirst : r.start ≤ first) (hg : Within r g) :
    ∀ k ∈ resumeKey? r g (pageStop r p first g.stop).1 (pageStop r p first g.stop).2, r.Owns k := by
  intro k hk
  have hstop := hg.1
  rcases pageStop_cases r p first g.stop with h | ⟨n, hn, hlt, h⟩
  · rw [h] at hk
    unfold resumeKey? at hk
    simp only [Bool.false_eq_true, if_false, Option.mem_def, Option.ite_none_right_eq_some] at hk
    obtain ⟨i, hlast, rfl⟩ := Option.map_eq_some_iff.1 hk.2
    exact hg.2 i (List.mem_of_getLast? hlast)
  · rw [h] at hk
    obtain rfl : (⟨r.partition, first + n * r.increment - 1⟩ : Key) = k := Option.some.inj hk
    have hmul : r.increment ≤ n * r.increment := by
      have := Int.mul_le_mul_of_nonneg_right hn (Int.le_of_lt hi)
      rwa [Int.one_mul] at this
    refine ⟨rfl, ?_, ?_⟩
    · show r.start ≤ first + n * r.increment - 1
      omega
    · show first + n * r.increment - 1 < r.stop
      omega

/-- The tokens of a listing name its keys, whatever the store holds. -/
theorem page_names (hS : Serves b I E items) (hstart : Stamp.Fits r.start) (hstop : Stamp.Fits r.stop)
    {desk : Desk σ} (hI : I desk.store) :
    Ends (fun d : Desk σ => I d.store) (fun _ => True)
      (fun pg => ∀ t ∈ pg.token, ∃ k, t = Token.encode k ∧ r.Owns k) (page b p r desk) := by
  unfold page pageBy
  refine Ends.bind (Desk.ends_check hI fun _ _ => trivial) fun _ d₁ hd₁ hcheck => ?_
  refine Ends.bind (Desk.ends_check hd₁ fun _ _ => trivial) ?_
  rintro ⟨after, first⟩ d₂ hd₂ hresume
  simp only
  by_cases hempty : r.stop ≤ first
  · rw [if_pos hempty]
    exact Ends.pure hd₂ fun _ h => absurd h (by simp)
  · rw [if_neg hempty]
    have hi := (check_eq_ok.1 hcheck).1
    have hfirst : r.start ≤ first := start_le_first hi (resumes_of_resume hresume)
    refine Ends.bind (Desk.ends_check hd₂ fun _ _ => trivial) ?_
    intro last d₃ hd₃ hlast
    obtain rfl : r.stop - r.bucketMillis = last := of_lastBucket_eq_ok hlast
    refine Ends.bind ((readBuckets_gathering hS hstart.1 hstop.2 hd₃).imp (fun _ _ => trivial)
      fun _ h => h) fun g d₄ hd₄ hg => ?_
    refine (Desk.ends_check hd₄ fun _ _ => trivial).imp (fun _ h => h) fun pg hpg => ?_
    obtain ⟨buckets, -, hpg⟩ := bind_eq_ok.1 hpg
    obtain rfl := Except.ok.inj hpg
    intro t ht
    obtain ⟨k, hk, rfl⟩ := Option.map_eq_some_iff.1 ht
    exact ⟨k, rfl, owns_of_mem_resumeKey? hi hfirst hg.within k hk⟩

end Listing

/-! ## Inquiries -/

/-- What a listing is asked for, but for the token. -/
inductive Inquiry
  | periods (device : String) (g : Granularity) (start stop increment : Int)
  | fragments (device : String) (start stop : Int)

namespace Inquiry

def partition : Inquiry → String
  | periods device g .. => Bucket.partition device g
  | fragments device .. => Fragment.partition device

/-- The ends of the range are stored numbers. -/
def Fits : Inquiry → Prop
  | periods _ _ start stop _ => Stamp.Fits start ∧ Stamp.Fits stop
  | fragments _ start stop => Stamp.Fits start ∧ Stamp.Fits stop

/-- What is checked before the token. -/
def check : Inquiry → Except RequestError Unit
  | periods device g start stop increment =>
    (⟨device, g, start, stop, increment, none⟩ : Listing.Request).check
  | fragments _ start stop => if start ≤ stop then .ok () else .error (.reversedRange start stop)

/-- Ask for the page after a token, for the token that it names. -/
def ask (b : Backend σ) (p : Paging) (token : Option String) : Inquiry → DeskTask σ (Option String)
  | periods device g start stop increment =>
    return (← Listing.page b p ⟨device, g, start, stop, increment, token⟩).token
  | fragments device start stop => return (← Archive.list b p device start stop token).token

variable {b : Backend σ} {I : σ → Prop} {E : StoreError → Prop} {items : List Item} {desk : Desk σ}
  {q : Inquiry}

/-- How the inquiry fails with a token that it cannot decode. -/
def refusal (q : Inquiry) (e : TokenError) : Failure :=
  match q.check with
  | .ok () => .token e
  | .error f => .request f

theorem isCallersFault_refusal (q : Inquiry) (e : TokenError) : (q.refusal e).isCallersFault := by
  unfold refusal
  cases q.check <;> rfl

/-- With a token that it cannot decode an inquiry fails at once. -/
theorem ask_of_decode_eq_error {t : String} {e : TokenError} (h : Token.decode q.partition t = .error e)
    (b : Backend σ) (p : Paging) (desk : Desk σ) :
    q.ask b p (some t) desk = (.error (q.refusal e), desk) := by
  cases q with
  | periods device g start stop increment =>
    have hdecode : Token.decode (Bucket.partition device g) t = .error e := h
    generalize hr : (⟨device, g, start, stop, increment, some t⟩ : Listing.Request) = r
    have hresume : r.resume = .error e := by
      subst hr
      show (Token.decode (Bucket.partition device g) t >>= _) = _
      rw [hdecode]
      rfl
    have hpage : Listing.page b p r desk = (.error (match r.check with
        | .ok () => .token e
        | .error f => .request f), desk) := by
      unfold Listing.page Listing.pageBy
      rw [hresume]
      cases r.check <;> rfl
    subst hr
    show (Listing.page b p _ >>= fun pg => pure pg.token) desk = _
    rw [bind_apply, hpage]
    rfl
  | fragments device start stop =>
    have hdecode : Token.decode (Fragment.partition device) t = .error e := h
    unfold ask Archive.list refusal check
    by_cases hle : start ≤ stop
    · simp only [if_pos hle, Option.mapM_some, hdecode]
      rfl
    · simp only [if_neg hle]
      rfl

/-- The tokens that a listing issues are those of keys of its partition, whatever the store holds. -/
theorem ask_names (hS : Serves b I E items) (hq : q.Fits) (hI : I desk.store) (token : Option String) :
    Ends (fun d : Desk σ => I d.store) (fun _ => True)
      (fun next => ∀ t ∈ next, ∃ k, t = Token.encode k ∧ k.partition = q.partition ∧ Stamp.Fits k.sort)
      (q.ask b p token desk) := by
  cases q with
  | periods device g start stop increment =>
    obtain ⟨hstart, hstop⟩ := hq
    refine Ends.bind (Listing.page_names (r := ⟨device, g, start, stop, increment, token⟩) hS hstart hstop
      hI) fun pg d hd hpg => Ends.pure hd fun t ht => ?_
    obtain ⟨k, rfl, hk⟩ := hpg t ht
    exact ⟨k, rfl, hk.1, hk.fits hstart hstop⟩
  | fragments device start stop =>
    obtain ⟨hstart, hstop⟩ := hq
    unfold ask Archive.list
    by_cases hle : start ≤ stop
    · simp only [if_pos hle]
      refine Ends.bind (Q := fun pg : FragmentPage => ∀ t ∈ pg.token, ∃ k, t = Token.encode k ∧
        k.partition = Fragment.partition device ∧ Stamp.Fits k.sort) ?_ fun pg d hd hpg => Ends.pure hd hpg
      refine Ends.bind (Desk.ends_check hI fun _ _ => trivial) fun after d₁ hd₁ _ => ?_
      refine Ends.bind (Desk.ends_onStore (hS.read (Archive.query p device start stop after) d₁.store hd₁)
        fun _ _ => trivial) fun page d₂ hd₂ hpage => ?_
      obtain ⟨left, hans⟩ := hpage
      refine Ends.bind (Desk.ends_check hd₂ fun _ _ => trivial) fun _ d₃ hd₃ _ => ?_
      refine Ends.pure hd₃ fun t ht => ?_
      obtain ⟨k, hk, rfl⟩ := Option.map_eq_some_iff.1 ht
      have hfloor : min start Stamp.least ≤ k.sort :=
        Int.le_trans (RangeRead.lower_le_least _) (hans.floor_le k hk)
      have hupper : k.sort ≤ stop := hans.le_upper k hk
      have hleast := hstart.1
      have hgreatest := hstop.2
      exact ⟨k, rfl, hans.partition_eq k hk, by omega, by omega⟩
    · simp only [if_neg hle]
      exact ⟨hI, trivial⟩

/-- The token of another partition is refused before anything is read, whatever is asked for and of
whatever store. It is refused as such, if the rest of the inquiry is accepted. -/
def Refuses (q : Inquiry) (issuedFor t : String) : Prop :=
  ∀ (σ : Type) (b : Backend σ) (p : Paging) (desk : Desk σ), ∃ f, q.ask b p (some t) desk = (.error f, desk) ∧
    f.isCallersFault ∧ (q.check = .ok () → f = .token (.foreign issuedFor q.partition))

theorem refuses_of_decode {issuedFor t : String}
    (h : Token.decode q.partition t = .error (.foreign issuedFor q.partition)) : q.Refuses issuedFor t := by
  intro σ b p desk
  refine ⟨_, ask_of_decode_eq_error h b p desk, q.isCallersFault_refusal _, fun hcheck => ?_⟩
  unfold refusal
  rw [hcheck]

end Inquiry

/-- **A token names its key, to the listings of its partition only.** Every other listing refuses it because of
the caller. -/
theorem token_bound :
    (∀ k : Key, Stamp.Fits k.sort →
      (∀ c ∈ (Token.encode k).toList, c ∈ Base64Url.alphabet.toList) ∧
      (∀ k' : Key, Stamp.Fits k'.sort → Token.encode k' = Token.encode k → k' = k) ∧
      ∀ w w' : String, (∀ c ∈ w.toList, Text.isBlank c) → (∀ c ∈ w'.toList, Text.isBlank c) →
        (∀ partition, Token.decode partition (w ++ Token.encode k ++ w') =
          if k.partition = partition then .ok k else .error (.foreign k.partition partition)) ∧
        ∀ q : Inquiry, k.partition ≠ q.partition →
          q.Refuses k.partition (w ++ Token.encode k ++ w')) ∧
    ∀ (q : Inquiry) (p : Paging) (token : Option String) (desk desk' : Desk Memory) (t : String), q.Fits →
      q.ask Memory.backend p token desk = (.ok (some t), desk') →
      (∃ k, t = Token.encode k ∧ k.partition = q.partition ∧ Stamp.Fits k.sort) ∧
      ∀ q' : Inquiry, q.partition ≠ q'.partition → q'.Refuses q.partition t := by
  have hrefuses : ∀ k : Key, Stamp.Fits k.sort → ∀ w w' : String, (∀ c ∈ w.toList, Text.isBlank c) →
      (∀ c ∈ w'.toList, Text.isBlank c) → ∀ q : Inquiry, k.partition ≠ q.partition →
      q.Refuses k.partition (w ++ Token.encode k ++ w') := by
    intro k hk w w' hw hw' q hne
    apply Inquiry.refuses_of_decode
    rw [Token.decode_between hk hw hw', if_neg hne]
  refine ⟨fun k hk => ⟨fun c => Token.mem_alphabet_of_mem_encode, fun k' => Token.encode_inj hk,
    fun w w' hw hw' => ⟨Token.decode_between hk hw hw', hrefuses k hk w w' hw hw'⟩⟩, ?_⟩
  intro q p token desk desk' t hq hask
  have hends := Inquiry.ask_names (p := p) desk.store.serves hq rfl token
  rw [hask] at hends
  obtain ⟨k, rfl, hp, hk⟩ := hends.2 t rfl
  have hnone : ∀ c ∈ ("" : String).toList, Text.isBlank c := fun _ hc => absurd hc List.not_mem_nil
  refine ⟨⟨k, rfl, hp, hk⟩, fun q' hne => ?_⟩
  have h := hrefuses k hk "" "" hnone hnone q' (by rwa [hp])
  rwa [String.empty_append, String.append_empty, hp] at h

/-- The key of the least number in a partition with quotes, a backslash, a zero and a sign outside the basic
plane, and a page that the store cuts after its first bucket. -/
theorem token_bound_quoted :
    let k : Key := ⟨"raw#\"\\\u0000é🎥#", Stamp.least⟩
    let t := "\u3000 " ++ Token.encode k ++ "\n"
    let arrivals : List Rollup.Arrival :=
      [⟨.increment ⟨"d", .seconds, 1000, 400, .device⟩, ⟨7, 0⟩, {}⟩,
        ⟨.increment ⟨"d", .seconds, 3000, 700, .cloud⟩, ⟨8, 0⟩, {}⟩]
    let desk : Desk Memory := ⟨{ (Rollup.History.of arrivals).store with pageSize := some 1 }, ⟨0, 0⟩⟩
    let q : Inquiry := .periods "d" .seconds 500 6000 2000
    Token.decode k.partition t = .ok k ∧
      Token.decode "raw#" t = .error (.foreign k.partition "raw#") ∧ q.Refuses k.partition t ∧
      (q.ask Memory.backend {} none desk).1 = .ok (some (Token.encode ⟨"d#SECONDS", 1000⟩)) ∧
      (Inquiry.fragments "d" 0 10).Refuses "d#SECONDS" (Token.encode ⟨"d#SECONDS", 1000⟩) := by
  intro k t arrivals desk q
  obtain ⟨hkeys, hissued⟩ := token_bound
  obtain ⟨-, -, hblanks⟩ := hkeys k (by decide)
  obtain ⟨hdecode, hrefuses⟩ := hblanks "\u3000 " "\n" (List.all_eq_true.1 rfl) (List.all_eq_true.1 rfl)
  have hask : (q.ask Memory.backend {} none desk).1 = .ok (some (Token.encode ⟨"d#SECONDS", 1000⟩)) :=
    eq_ok_of_toOption (by decide +kernel)
  obtain ⟨-, hother⟩ := hissued q {} none desk _ _ ⟨by decide, by decide⟩ (Prod.ext hask rfl)
  refine ⟨(hdecode _).trans (if_pos rfl), (hdecode _).trans (if_neg (by decide)), hrefuses q (by decide), hask,
    hother (.fragments "d" 0 10) (by decide)⟩

end Footage
