import OpenALRenderer.Foundation.System
import OpenALRenderer.Foundation.ScopedLocks
import OpenALRenderer.Foundation.Ring
import OpenALRenderer.Model.Mixer
import OpenALRenderer.Model.Threads
import OpenALRenderer.Model.SoundLoop
import OpenALRenderer.Model.Playback
import OpenALRenderer.Verification.Mixer.Completion
import OpenALRenderer.Verification.Pin.Agreement
import OpenALRenderer.Verification.Pin.Flush
import OpenALRenderer.Verification.Pin.Purity
import OpenALRenderer.Verification.Pin.Divisors
import OpenALRenderer.Verification.Threads.Delivery
import OpenALRenderer.Verification.Stream.Teardown
import OpenALRenderer.Verification.Stream.Underrun
import OpenALRenderer.Verification.Stream.FormatChange
import OpenALRenderer.Verification.Process.Isolation
import OpenALRenderer.Verification.Process.Enumeration
import OpenALRenderer.Verification.Process.Opening
import OpenALRenderer.Verification.Clock.Ticks
import OpenALRenderer.Verification.Clock.HandOver
import OpenALRenderer.Verification.Stream.BufferSizing
import OpenALRenderer.Verification.Stream.SampleTime
import OpenALRenderer.Verification.Pin.Disconnection
import OpenALRenderer.Verification.Pin.Acceptance
import OpenALRenderer.Verification.Pin.Malformed
import OpenALRenderer.Verification.Pin.Setting
import OpenALRenderer.Verification.Stream.Waiting
import OpenALRenderer.Verification.Stream.Audible
import OpenALRenderer.Verification.Stream.Stopping
import OpenALRenderer.Verification.Clock.Waking
import OpenALRenderer.Verification.Clock.Joining
import OpenALRenderer.Verification.Clock.Telling
import OpenALRenderer.Verification.Pin.TypeStore
import OpenALRenderer.Verification.Pin.Enumerators
import OpenALRenderer.Verification.Process.Lifetime
