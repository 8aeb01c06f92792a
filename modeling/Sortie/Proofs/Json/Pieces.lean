import Sortie.Json.Token
import Sortie.Proofs.Json.Numbers

/-!
# Readers one after the other

A reader that takes one piece and a reader that takes the next take both (`Takes.bind`), if no number
runs from one into the other.  A reader that looks ahead has its rule beside it: what it leaves in
place is taken by the reader behind it.

A text is taken for what was written (`takes_readText`).
-/

namespace Sortie.Json

open Text (Bytes)

variable {α β : Type}

theorem Ends.append {piece rest : Bytes} (h : Ends piece) (hr : Ends rest) :
    Ends (piece ++ rest) := by
  cases piece with
  | nil => exact hr
  | cons b piece => exact h

/-- Bytes that stand between two things and say nothing. -/
def IsGap (gap : Bytes) : Prop :=
  ∀ b ∈ gap, isSpace b = true

theorem isGap_nil : IsGap [] := by
  intro b hb
  cases hb

theorem dropSpace_append {gap : Bytes} (h : IsGap gap) {b : UInt8} (hb : isSpace b = false)
    (r : Bytes) : dropSpace (gap ++ b :: r) = b :: r := by
  induction gap with
  | nil => simp [dropSpace, hb]
  | cons a gap ih =>
    simp only [List.cons_append, dropSpace, h a List.mem_cons_self, if_true]
    exact ih fun c hc => h c (List.mem_cons_of_mem a hc)

namespace Takes

theorem pure (a : α) : Takes (pure a) [] (some a) :=
  fun _ _ => rfl

theorem throw (fault : Fault) (piece : Bytes) :
    Takes (MonadExcept.throw fault : Reader α) piece none :=
  fun _ _ => rfl

/-- What is made of two pieces is made of the first and then of the second. -/
theorem bind {x : Reader α} {f : α → Reader β} {p q : Bytes} {a? : Option α}
    {g : α → Option β} (hx : Takes x p a?) (hq : Ends q)
    (hf : ∀ a, a? = some a → Takes (f a) q (g a)) : Takes (x >>= f) (p ++ q) (a?.bind g) := by
  intro rest hr
  have hp := hx (q ++ rest) (hq.append hr)
  rw [List.append_assoc]
  show ((x (p ++ (q ++ rest))).bind fun r => f r.1 r.2).toOption = _
  cases hxp : x (p ++ (q ++ rest)) with
  | error fault =>
    cases a? with
    | none => rfl
    | some a => rw [hxp] at hp; cases hp
  | ok r =>
    cases a? with
    | none => rw [hxp] at hp; cases hp
    | some a =>
      rw [hxp] at hp
      obtain rfl : r = (a, q ++ rest) := Option.some.inj hp
      exact hf a rfl rest hr

theorem bind_some {x : Reader α} {f : α → Reader β} {p q : Bytes} {a : α} {b? : Option β}
    (hx : Takes x p (some a)) (hq : Ends q) (hf : Takes (f a) q b?) :
    Takes (x >>= f) (p ++ q) b? :=
  hx.bind (g := fun _ => b?) hq fun _ h => Option.some.inj h ▸ hf

theorem bind_nil {x : Reader α} {f : α → Reader β} {p : Bytes} {a? : Option α}
    {g : α → Option β} (hx : Takes x p a?) (hf : ∀ a, a? = some a → Takes (f a) [] (g a)) :
    Takes (x >>= f) p (a?.bind g) := by
  have := hx.bind ends_nil hf
  rw [List.append_nil] at this
  exact this

theorem bind_nil_some {x : Reader α} {f : α → Reader β} {p : Bytes} {a : α} {b? : Option β}
    (hx : Takes x p (some a)) (hf : Takes (f a) [] b?) : Takes (x >>= f) p b? :=
  hx.bind_nil (g := fun _ => b?) fun _ h => Option.some.inj h ▸ hf

theorem bind_nil_none {x : Reader α} {f : α → Reader β} {p : Bytes} (hx : Takes x p none) :
    Takes (x >>= f) p none :=
  hx.bind_nil (g := fun _ => none) fun _ h => by cases h

end Takes

/-! ### Looking ahead -/

section

variable {gap q : Bytes} {b : UInt8} {a? : Option α}

theorem takes_peek {f : UInt8 → Reader α} (hgap : IsGap gap) (hb : isSpace b = false)
    (h : Takes (f b) (b :: q) a?) : Takes (peek >>= f) (gap ++ b :: q) a? := by
  intro rest hr
  rw [List.append_assoc, List.cons_append]
  show ((peek (gap ++ b :: (q ++ rest))).bind fun r => f r.1 r.2).toOption = _
  simp only [peek, dropSpace_append hgap hb]
  exact h rest hr

theorem takes_drop {f : Unit → Reader α} (h : Takes (f ()) q a?) :
    Takes (drop >>= f) (b :: q) a? :=
  h

theorem takes_expect {c : Char} {f : Unit → Reader α} (hgap : IsGap gap)
    (hc : isSpace (ascii c) = false) (h : Takes (f ()) q a?) :
    Takes (expect c >>= f) (gap ++ ascii c :: q) a? := by
  intro rest hr
  rw [List.append_assoc, List.cons_append]
  show ((expect c (gap ++ ascii c :: (q ++ rest))).bind fun r => f r.1 r.2).toOption = _
  have hexpect : expect c (gap ++ ascii c :: (q ++ rest)) = .ok ((), q ++ rest) := by
    show ((peek (gap ++ ascii c :: (q ++ rest))).bind fun r => _) = _
    simp only [peek, dropSpace_append hgap hc]
    show (if ascii c = ascii c then drop else MonadExcept.throw Fault.malformed : Reader Unit)
      (ascii c :: (q ++ rest)) = _
    rw [if_pos rfl]
    rfl
  rw [hexpect]
  exact h rest hr

theorem takes_itemBound {p : Bytes} {f : Nat → Reader α}
    (h : ∀ n, p.length < n → Takes (f n) p a?) : Takes (itemBound >>= f) p a? := by
  intro rest hr
  exact h ((p ++ rest).length + 1) (by rw [List.length_append]; omega) rest hr

theorem takes_word (cs : List Char) : Takes (word cs) (cs.map ascii) (some ()) := by
  intro rest hr
  induction cs with
  | nil => rfl
  | cons c cs ih =>
    simp only [List.map_cons, List.cons_append, word, if_true]
    exact ih

end

/-! ### Texts -/

/-- A byte that stands for itself in a text. -/
def isPlain (b : UInt8) : Bool :=
  b != ascii '"' && b != ascii '\\' && 32 ≤ b.toNat

theorem textBytes_plain {bs : Bytes} (h : ∀ b ∈ bs, isPlain b = true) (seen r : Bytes) :
    textBytes seen (bs ++ r) = textBytes (bs.reverse ++ seen) r := by
  induction bs generalizing seen with
  | nil => rfl
  | cons b bs ih =>
    have hb := h b List.mem_cons_self
    simp only [isPlain, Bool.and_eq_true, bne_iff_ne, ne_eq, decide_eq_true_eq] at hb
    obtain ⟨⟨hquote, hback⟩, hlow⟩ := hb
    rw [List.cons_append, textBytes.eq_def]
    dsimp only
    rw [if_neg hquote, if_neg hback, if_neg (Nat.not_lt.mpr hlow),
      ih (fun c hc => h c (List.mem_cons_of_mem b hc))]
    simp

theorem isPlain_of_le {b : UInt8} (h : 128 ≤ b.toNat) : isPlain b = true := by
  have hne {c : UInt8} (hc : c.toNat < 128) : b ≠ c := by
    rintro rfl
    omega
  simp only [isPlain, Bool.and_eq_true, bne_iff_ne, ne_eq, decide_eq_true_eq]
  exact ⟨⟨hne (by decide), hne (by decide)⟩, by omega⟩

theorem toNat_ne {c d : Char} (h : c ≠ d) : c.toNat ≠ d.toNat :=
  fun heq => h (Char.toNat_inj.mp heq)

/-- All bytes of a character that needs no escape stand for themselves. -/
theorem isPlain_encodeChar {c : Char} (hquote : c ≠ '"') (hback : c ≠ '\\') (hlow : 32 ≤ c.toNat) :
    ∀ b ∈ Text.encodeChar c, isPlain b = true := by
  have hhigh {n : Nat} (h : 128 ≤ n) (hn : n < 256) : isPlain (UInt8.ofNat n) = true :=
    isPlain_of_le (by rw [Text.toNat_ofNat_of_lt hn]; exact h)
  have hc := Text.toNat_lt c
  dsimp only [Text.encodeChar]
  split
  · next h =>
    have hbyte : (UInt8.ofNat c.toNat).toNat = c.toNat := Text.toNat_ofNat_of_lt (by omega)
    have hne {d : Char} (hd : d.toNat < 256) (hcd : c ≠ d) : UInt8.ofNat c.toNat ≠ ascii d := by
      intro heq
      have := congrArg UInt8.toNat heq
      rw [hbyte, ascii, Text.toNat_ofNat_of_lt hd] at this
      exact toNat_ne hcd this
    simp only [List.mem_singleton, forall_eq, isPlain, Bool.and_eq_true, bne_iff_ne, ne_eq,
      decide_eq_true_eq, hbyte]
    exact ⟨⟨hne (by decide) hquote, hne (by decide) hback⟩, hlow⟩
  split
  · simp only [List.mem_cons, List.not_mem_nil, or_false, forall_eq_or_imp, forall_eq]
    exact ⟨hhigh (by omega) (by omega), hhigh (by omega) (by omega)⟩
  split
  · simp only [List.mem_cons, List.not_mem_nil, or_false, forall_eq_or_imp, forall_eq]
    exact ⟨hhigh (by omega) (by omega), hhigh (by omega) (by omega), hhigh (by omega) (by omega)⟩
  · simp only [List.mem_cons, List.not_mem_nil, or_false, forall_eq_or_imp, forall_eq]
    exact ⟨hhigh (by omega) (by omega), hhigh (by omega) (by omega), hhigh (by omega) (by omega),
      hhigh (by omega) (by omega)⟩

theorem hexNumber?_low {n : Nat} (h : n < 32) :
    hexNumber? (ascii '0') (ascii '0') (ascii (Nat.digitChar (n / 16)))
      (ascii (Nat.digitChar (n % 16))) = some n := by
  have hall : ∀ n : Fin 32, hexNumber? (ascii '0') (ascii '0') (ascii (Nat.digitChar (n / 16)))
      (ascii (Nat.digitChar (n % 16))) = some n.val := by decide
  exact hall ⟨n, h⟩

theorem encode_digitChar {n : Nat} (h : n < 16) (cs : List Char) :
    Text.encode (Nat.digitChar n :: cs) = ascii (Nat.digitChar n) :: Text.encode cs := by
  have hall : ∀ n : Fin 16, Text.encodeChar (Nat.digitChar n) = [ascii (Nat.digitChar n)] := by
    decide
  rw [Text.encode_cons, hall ⟨n, h⟩]
  rfl

/-- A character that is written by its number. -/
theorem textBytes_number {c : Char} (h : c.toNat < 32) (seen r : Bytes) :
    textBytes seen (Text.encode ['\\', 'u', '0', '0', Nat.digitChar (c.toNat / 16),
        Nat.digitChar (c.toNat % 16)] ++ r)
      = textBytes ((Text.encodeChar c).reverse ++ seen) r := by
  have hbytes : Text.encode ['\\', 'u', '0', '0', Nat.digitChar (c.toNat / 16),
      Nat.digitChar (c.toNat % 16)] = [ascii '\\', ascii 'u', ascii '0', ascii '0',
        ascii (Nat.digitChar (c.toNat / 16)), ascii (Nat.digitChar (c.toNat % 16))] := by
    have hlast : Text.encode [Nat.digitChar (c.toNat / 16), Nat.digitChar (c.toNat % 16)]
        = [ascii (Nat.digitChar (c.toNat / 16)), ascii (Nat.digitChar (c.toNat % 16))] := by
      rw [encode_digitChar (by omega), encode_digitChar (by omega)]
      rfl
    show ascii '\\' :: ascii 'u' :: ascii '0' :: ascii '0' :: Text.encode [_, _] = _
    rw [hlast]
  have hlow : isLowSurrogate c.toNat = false := by
    simp only [isLowSurrogate, Bool.and_eq_false_iff, decide_eq_false_iff_not]
    omega
  have hhigh : isHighSurrogate c.toNat = false := by
    simp only [isHighSurrogate, Bool.and_eq_false_iff, decide_eq_false_iff_not]
    omega
  rw [hbytes, List.cons_append, textBytes.eq_def]
  dsimp only [List.cons_append, List.nil_append]
  rw [if_neg (by decide), if_pos rfl, if_pos rfl, hexNumber?_low h]
  dsimp only
  rw [hlow, hhigh, if_neg Bool.false_ne_true, if_neg Bool.false_ne_true, Char.ofNat_toNat]

theorem textBytes_quote (seen r : Bytes) :
    textBytes seen (ascii '"' :: r) = .ok (seen.reverse, r) := by
  rw [textBytes.eq_def]
  dsimp only
  rw [if_pos rfl]

/-- A character that is written by its name. -/
theorem textBytes_name {name c : Char} (hname : Text.encodeChar name = [ascii name])
    (hc : Text.encodeChar c = [ascii c]) (hu : ascii name ≠ ascii 'u')
    (h : escaped? (ascii name) = some (ascii c)) (seen r : Bytes) :
    textBytes seen (Text.encode ['\\', name] ++ r)
      = textBytes ((Text.encodeChar c).reverse ++ seen) r := by
  have hbytes : Text.encode ['\\', name] = [ascii '\\', ascii name] := by
    rw [Text.encode_cons, Text.encode_cons, hname]
    rfl
  rw [hbytes, hc, List.cons_append, textBytes.eq_def]
  dsimp only [List.cons_append, List.nil_append]
  rw [if_neg (by decide), if_pos rfl, if_neg hu, h]
  rfl

/-- Each character is taken back from what it is written as. -/
theorem textBytes_escapeChar (c : Char) (seen r : Bytes) :
    textBytes seen (Text.encode (escapeChar c) ++ r)
      = textBytes ((Text.encodeChar c).reverse ++ seen) r := by
  unfold escapeChar
  split
  · next h =>
    subst h
    exact textBytes_name rfl rfl (by decide) (by decide) seen r
  split
  · next h =>
    subst h
    exact textBytes_name rfl rfl (by decide) (by decide) seen r
  split
  · next h =>
    subst h
    exact textBytes_name rfl rfl (by decide) (by decide) seen r
  split
  · next h =>
    subst h
    exact textBytes_name rfl rfl (by decide) (by decide) seen r
  split
  · next h =>
    subst h
    exact textBytes_name rfl rfl (by decide) (by decide) seen r
  split
  · next h =>
    obtain rfl : c = Char.ofNat 8 := Char.toNat_inj.mp h
    exact textBytes_name rfl rfl (by decide) (by decide) seen r
  split
  · next h =>
    obtain rfl : c = Char.ofNat 12 := Char.toNat_inj.mp h
    exact textBytes_name rfl rfl (by decide) (by decide) seen r
  split
  · next h => exact textBytes_number h seen r
  · next hquote hback _ _ _ _ _ hlow =>
    have hc : Text.encode [c] = Text.encodeChar c := List.append_nil _
    rw [hc]
    exact textBytes_plain (isPlain_encodeChar hquote hback (Nat.not_lt.mp hlow)) seen r

theorem textBytes_escaped (cs : List Char) (seen r : Bytes) :
    textBytes seen (Text.encode (cs.flatMap escapeChar) ++ r)
      = textBytes ((Text.encode cs).reverse ++ seen) r := by
  induction cs generalizing seen with
  | nil => rfl
  | cons c cs ih =>
    rw [List.flatMap_cons, Text.encode_append, List.append_assoc, textBytes_escapeChar, ih,
      Text.encode_cons, List.reverse_append, List.append_assoc]

/-- A text is taken for what was written, whatever follows its closing quote. -/
theorem takes_readText (s : String) :
    Takes readText (Text.encode (s.toList.flatMap escapeChar ++ ['"'])) (some s) := by
  intro rest _
  have hbytes : textBytes [] (Text.encode (s.toList.flatMap escapeChar ++ ['"']) ++ rest)
      = .ok (Text.encode s.toList, rest) := by
    rw [Text.encode_append, List.append_assoc, textBytes_escaped, List.append_nil]
    show textBytes _ (ascii '"' :: rest) = _
    rw [textBytes_quote, List.reverse_reverse]
  have hread : readText (Text.encode (s.toList.flatMap escapeChar ++ ['"']) ++ rest)
      = .ok (s, rest) := by
    unfold readText
    rw [hbytes]
    simp only [bind, Except.bind, Text.decode?_encode]
    simp
  rw [hread]
  rfl

end Sortie.Json
