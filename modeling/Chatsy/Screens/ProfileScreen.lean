import Chatsy.Dart.Strings

/-!
# ProfileScreen: which picture is shown

The screen shows the picture at the global variable `url`. Each time it is
opened, `checkSharedPrefs` sets that variable from two preferences of the
device, a flag and an address. An upload stores its address and sets the flag;
neither preference says whose picture it is.

## Implementation notes

A condition that is null ends `checkSharedPrefs` with an error before the
variable is set. `uploadImage` is the part after the new image has been stored;
its two preference writes follow each other without a request between them.
-/

namespace Chatsy.ProfileScreen

/-- The two preferences of the device. -/
structure SharedPrefs where
  doProfilePicExists : Option Bool
  storageImageURL : Option Text
  deriving DecidableEq, Repr

/-- No preference has been set. -/
def unset : SharedPrefs := ⟨none, none⟩

/-- The default picture. -/
def defaultPicture : Text :=
  text "https://moonvillageassociation.org/wp-content/uploads/2018/06/default-profile-picture1.jpg"

theorem length_defaultPicture : defaultPicture.length = 90 := by decide

theorem ne_defaultPicture {url : Text} (h : url.length < 90) : url ≠ defaultPicture := by
  rintro rfl
  rw [length_defaultPicture] at h
  omega

def setStorageImageUrlSharedPerfs (url : Text) (prefs : SharedPrefs) : SharedPrefs :=
  { prefs with storageImageURL := some url }

def getStorageImageURLSharedPerfs (prefs : SharedPrefs) : Option Text := prefs.storageImageURL

def setSharedPreferencesTrue (prefs : SharedPrefs) : SharedPrefs :=
  { prefs with doProfilePicExists := some true }

/-- The global variable `url` after `checkSharedPrefs`. -/
def checkSharedPrefs (prefs : SharedPrefs) (url : Option Text) : Option Text :=
  match prefs.doProfilePicExists with
  | some true => getStorageImageURLSharedPerfs prefs
  | some false => some defaultPicture
  | none => url

/-- The preferences after `uploadImage` has stored an image at `url`. -/
def uploadImage (url : Text) (prefs : SharedPrefs) : SharedPrefs :=
  setSharedPreferencesTrue (setStorageImageUrlSharedPerfs url prefs)

end Chatsy.ProfileScreen
