import Chatsy.Foundation.Runs
import Chatsy.Foundation.SortedSelection
import Chatsy.Systems.Conversation
import Chatsy.Systems.PickCounts
import Chatsy.Systems.SignedOut
import Chatsy.Systems.Friendship
import Chatsy.Screens.RegistrationScreen
import Chatsy.Systems.Registration
import Chatsy.Screens.ProfileScreen
import Chatsy.Systems.Pictures
import Chatsy.Foundation.Covering
import Chatsy.Systems.PickRange
import Chatsy.Systems.Location
import Chatsy.Systems.Composer
import Chatsy.Systems.UploadOutcomes
import Chatsy.Systems.Authenticity
import Chatsy.Systems.Shown
import Chatsy.Systems.Typed
import Chatsy.Systems.Covered
import Chatsy.Systems.Presence
import Chatsy.Systems.Consent
import Chatsy.Systems.GalleryUploads
import Chatsy.Systems.OnePhone
