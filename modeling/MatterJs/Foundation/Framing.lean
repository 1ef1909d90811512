import MatterJs.Foundation.LittleEndian
import Mathlib.Data.List.Infix

/-!
# Length-prefixed frames

Messages behind a little-endian length of a fixed width. `ok` says which lengths a reader
accepts.
-/
namespace Framing

open LittleEndian List

variable {w p : Nat} {ok : Nat → Prop} {m r : List UInt8} {ms s : List (List UInt8)}

/-- A message behind its length. -/
def frame (w : Nat) (m : List UInt8) : List UInt8 := encode w m.length ++ m

def frames (w : Nat) (ms : List (List UInt8)) : List UInt8 := (ms.map (frame w)).flatten

/-- The length at the front of some bytes. -/
def header (w : Nat) (bytes : List UInt8) : Nat := decode (bytes.take w)

/-- The bytes after the last complete frame, once `p` bytes of the frames are there. -/
def pending (w : Nat) : List (List UInt8) → Nat → Nat
  | [], p => p
  | m :: ms, p => if p < w + m.length then p else pending w ms (p - (w + m.length))

/-- The reader accepts the length of the message, and the header can hold it. -/
def Accepted (w : Nat) (ok : Nat → Prop) (m : List UInt8) : Prop :=
  ok m.length ∧ m.length < 256 ^ w

/-- No complete frame is at the front, and an accepted length if there is a header. -/
def Incomplete (w : Nat) (ok : Nat → Prop) (r : List UInt8) : Prop :=
  w ≤ r.length → ok (header w r) ∧ r.length < w + header w r

@[simp] theorem length_frame (w : Nat) (m : List UInt8) : (frame w m).length = w + m.length := by
  simp [frame]

@[simp] theorem frames_nil (w : Nat) : frames w [] = [] := rfl

@[simp] theorem frames_cons (w : Nat) (m : List UInt8) (ms : List (List UInt8)) :
    frames w (m :: ms) = frame w m ++ frames w ms := rfl

@[simp] theorem frames_append (w : Nat) (s ms : List (List UInt8)) :
    frames w (s ++ ms) = frames w s ++ frames w ms := by
  simp [frames]

theorem header_append {xs y : List UInt8} (h : w ≤ xs.length) :
    header w (xs ++ y) = header w xs := by
  simp [header, take_append_of_le_length h]

theorem header_frame (h : m.length < 256 ^ w) : header w (frame w m) = m.length := by
  have ht : (frame w m).take w = encode w m.length :=
    take_left' (length_encode w m.length)
  rw [header, ht, decode_encode_of_lt h]

/-- What has a header at the front of the frames has that of the first message. -/
theorem header_of_prefix (hs : ∀ m ∈ ms, Accepted w ok m) (hw : 0 < w) (h : r <+: frames w ms)
    (hl : w ≤ r.length) : ∃ m ms', ms = m :: ms' ∧ header w r = m.length := by
  obtain ⟨o, hmr⟩ := h
  cases ms with
  | nil =>
    have hn : r = [] := (append_eq_nil_iff.mp hmr).1
    simp [hn] at hl
    omega
  | cons m ms =>
    refine ⟨m, ms, rfl, ?_⟩
    have hm := (hs m (by simp)).2
    calc header w r = header w (r ++ o) := (header_append hl).symm
      _ = header w (frame w m) := by
        rw [hmr, frames_cons, header_append (by simp)]
      _ = m.length := header_frame hm

/-- Frames read from the front of frames are the first of them. -/
theorem frames_prefix (hs : ∀ m ∈ ms, Accepted w ok m) (hds : ∀ d ∈ s, Accepted w ok d) (hw : 0 < w)
    (h : frames w s ++ r <+: frames w ms) : ∃ ms', ms = s ++ ms' ∧ r <+: frames w ms' := by
  induction s generalizing ms with
  | nil => exact ⟨ms, rfl, h⟩
  | cons d s ih =>
    rw [frames_cons, append_assoc] at h
    obtain ⟨m, ms, rfl, hh⟩ := header_of_prefix hs hw h (by simp; omega)
    rw [header_append (by simp), header_frame (hds d (by simp)).2] at hh
    -- the two first frames have one length, so they are the same
    have hf : frame w d = frame w m := by
      have hd := (prefix_append (frame w d) (frames w s ++ r)).trans h
      have hm : frame w m <+: frames w (m :: ms) := by simp
      exact (prefix_of_prefix_length_le hd hm (by simp [hh])).eq_of_length
        (by simp [hh])
    have hdm : d = m := by simpa [frame, hh] using hf
    subst hdm
    rw [frames_cons, prefix_append_right_inj] at h
    obtain ⟨ms', rfl, hrs⟩ := ih (fun m hm => hs m (by simp [hm]))
      (fun d hd => hds d (by simp [hd])) h
    exact ⟨ms', rfl, hrs⟩

theorem pending_append (w : Nat) (s ms : List (List UInt8)) (p : Nat) :
    pending w (s ++ ms) ((frames w s).length + p) = pending w ms p := by
  induction s with
  | nil => simp
  | cons d s ih =>
    have hg : ¬ (frames w (d :: s)).length + p < w + d.length := by simp; omega
    have hs : (frames w (d :: s)).length + p - (w + d.length) =
        (frames w s).length + p := by simp; omega
    rw [cons_append, pending, if_neg hg, hs, ih]

/-- An incomplete frame at the front of frames is shorter than the first of them. -/
theorem Incomplete.length_lt (hs : Incomplete w ok r) (hm : ∀ m' ∈ m :: ms, Accepted w ok m')
    (hw : 0 < w) (h : r <+: frames w (m :: ms)) : r.length < w + m.length := by
  by_contra hg
  obtain ⟨_, _, he, hh⟩ := header_of_prefix hm hw h (by omega)
  have hl := (hs (by omega)).2
  rw [hh, ← (cons.inj he).1] at hl
  exact hg hl

/-- An incomplete frame is what is pending. -/
theorem pending_of_incomplete (hm : ∀ m ∈ ms, Accepted w ok m) (hw : 0 < w)
    (h : r <+: frames w ms) (hs : Incomplete w ok r) : pending w ms r.length = r.length := by
  cases ms with
  | nil => rfl
  | cons m ms => rw [pending, if_pos (hs.length_lt hm hw h)]

/-- Frames are read in one way only. -/
theorem frames_unique (hs : ∀ m ∈ ms, Accepted w ok m) (hd : ∀ d ∈ s, Accepted w ok d)
    (hw : 0 < w) (hrs : Incomplete w ok r) (h : frames w s ++ r = frames w ms) : s = ms := by
  obtain ⟨ms', rfl, hp⟩ := frames_prefix hs hd hw (by rw [h])
  rw [frames_append, append_cancel_left_eq] at h
  cases ms' with
  | nil => simp
  | cons m ms' =>
    have hl := hrs.length_lt (fun m hm => hs m (mem_append_right s hm)) hw hp
    rw [h, frames_cons, length_append, length_frame] at hl
    omega

/-- An incomplete frame is the beginning of a longer one, which the reader accepts if the header is
there. -/
theorem incomplete_prefix (h : Incomplete w ok r) : ∃ m, m.length < 256 ^ w ∧
    (w ≤ r.length → ok m.length) ∧ r.length < (frame w m).length ∧ r <+: frame w m := by
  by_cases hl : w ≤ r.length
  · obtain ⟨ha, ht⟩ := h hl
    let m := r.drop w ++ replicate (w + header w r - r.length) 0
    have hm : m.length = header w r := by simp [m]; omega
    have hh : encode w m.length = r.take w := by
      rw [hm, header]
      simpa [hl] using encode_decode (r.take w)
    have hb : header w r < 256 ^ w := by simpa [header, hl] using decode_lt (r.take w)
    refine ⟨m, hm ▸ hb, fun _ => hm ▸ ha, by simp [hm]; omega, ?_⟩
    rw [frame, hh, ← append_assoc, take_append_drop]
    exact prefix_append _ _
  · let filled := r ++ replicate (w - r.length) 0
    have hw : filled.length = w := by simp [filled]; omega
    have hh : encode w (decode filled) = filled := hw ▸ encode_decode filled
    refine ⟨replicate (decode filled) 0, ?_, (absurd · hl), by simp; omega, ?_⟩
    · rw [length_replicate]
      exact hw ▸ decode_lt filled
    · rw [frame, length_replicate, hh, append_assoc]
      exact prefix_append _ _

end Framing
