import EspOpenRtos.DhcpServer.OneLease
import EspOpenRtos.DhcpServer.Options
import EspOpenRtos.DhcpServer.Requests
import EspOpenRtos.Dsm.Output
import EspOpenRtos.EspTimer.Timeout
import EspOpenRtos.EtsTimer.Interleaving
import EspOpenRtos.EtsTimer.NeverEarly
import EspOpenRtos.EtsTimer.Wakeup
import EspOpenRtos.HttpOta.Segmentation
import EspOpenRtos.HttpOta.Update
import EspOpenRtos.I2c.Frequency
import EspOpenRtos.I2s.ClockDiv
import EspOpenRtos.MdnsResponder.Answers
import EspOpenRtos.MdnsResponder.Bounds
import EspOpenRtos.MdnsResponder.Discovery
import EspOpenRtos.OneWire.Enumeration
import EspOpenRtos.Pwm.Loads
import EspOpenRtos.Rboot.Reads
import EspOpenRtos.Sdio.Checksums
import EspOpenRtos.Sntp.Accuracy
import EspOpenRtos.Spi.RepeatSend
import EspOpenRtos.SpiFlash.Sdk
import EspOpenRtos.Sysparam.Containment
import EspOpenRtos.Sysparam.Enumeration
import EspOpenRtos.Sysparam.FailedWrite
import EspOpenRtos.Sysparam.Fullness
import EspOpenRtos.Sysparam.Locality
import EspOpenRtos.Sysparam.OnChip
import EspOpenRtos.Sysparam.RoundTrip
import EspOpenRtos.Sysparam.StaticReads
import EspOpenRtos.TftpOta.Fields
import EspOpenRtos.TftpOta.Transfer
import EspOpenRtos.Timekeeping.ExactSlew
import EspOpenRtos.WifiCfg.CaptiveDns
import EspOpenRtos.WifiCfg.Chunks
import EspOpenRtos.WifiCfg.Credentials
import EspOpenRtos.WifiCfg.Escape
import EspOpenRtos.WifiCfg.Lock
import EspOpenRtos.WifiCfg.Settings
import EspOpenRtos.WifiParam.PowerCut
